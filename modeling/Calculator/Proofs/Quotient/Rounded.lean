import Calculator.Proofs.Binary64.Arithmetic
import Calculator.Expr.Evaluation

/-!
# Quotients as rounded rationals

The quotient of two words as an expression in rationals and `nearest` (`toRat?_quotient`). Every
step of the computation stays far below the largest finite number, so each is a rounded operation.
-/

namespace Calculator

open Binary64

namespace Binary64

theorem abs_nearest_le {x y : ℚ} (h : |x| ≤ |y|) : |nearest x| ≤ |nearest y| := by
  rw [abs_nearest, abs_nearest]
  exact magnitude_strictMono.monotone (rankOf_le h)

theorem abs_nearest_le_two_pow {x : ℚ} {k : ℕ} (h : |x| ≤ 2 ^ k) : |nearest x| ≤ 2 ^ k := by
  have hpow : nearest (2 ^ k) = 2 ^ k := by
    have h := nearest_scaled (m := 1) (i := k) (j := 0) (by decide) (by norm_num)
    simpa using h
  have hpos : |(2 : ℚ) ^ k| = 2 ^ k := abs_of_pos (by positivity)
  have hle := abs_nearest_le (h.trans hpos.ge)
  rwa [hpow, hpos] at hle

theorem one_le_abs_nearest {n : ℤ} (h : n ≠ 0) : 1 ≤ |nearest n| := by
  have hone : |nearest 1| = 1 := by
    have h := nearest_intCast (m := 1) (by norm_num)
    rw [Int.cast_one] at h
    rw [h, abs_one]
  have hle : |(1 : ℚ)| ≤ |(n : ℚ)| := by
    rw [abs_one]
    exact_mod_cast Int.one_le_abs h
  rw [← hone]
  exact abs_nearest_le hle

end Binary64

/-! ## Whole part and rest -/

theorem tdiv_add_div {l r : ℤ} (hr : r ≠ 0) : (l.tdiv r : ℚ) + l.tmod r / r = l / r := by
  have hsplit : (r : ℚ) * l.tdiv r + l.tmod r = l := by exact_mod_cast Int.mul_tdiv_add_tmod l r
  have hne : (r : ℚ) ≠ 0 := by exact_mod_cast hr
  rw [eq_div_iff hne, add_mul, div_mul_cancel₀ _ hne, mul_comm]
  exact hsplit

/-- A whole part without a rest is the rational. -/
theorem cast_tdiv_of_dvd {l r : ℤ} (hr : r ≠ 0) (h : r ∣ l) : ((l.tdiv r : ℤ) : ℚ) = l / r := by
  have hvalue := tdiv_add_div (l := l) hr
  rwa [Int.tmod_eq_zero_of_dvd h, Int.cast_zero, zero_div, add_zero] at hvalue

theorem abs_tmod_lt (l : ℤ) {r : ℤ} (hr : r ≠ 0) : |l.tmod r| < |r| := by
  rw [Int.abs_eq_natAbs, Int.abs_eq_natAbs, Int.natAbs_tmod]
  exact_mod_cast Nat.mod_lt _ (Int.natAbs_pos.mpr hr)

theorem abs_tdiv_le (l r : ℤ) : |l.tdiv r| ≤ |l| := by
  rw [Int.abs_eq_natAbs, Int.abs_eq_natAbs, Int.natAbs_tdiv]
  exact_mod_cast Nat.div_le_self _ _

/-! ## The value of a quotient -/

theorem abs_rest_div_le_one (l : ℤ) {r : ℤ} (hr : r ≠ 0) :
    |nearest (l.tmod r) / nearest r| ≤ 1 := by
  have hle : |((l.tmod r : ℤ) : ℚ)| ≤ |(r : ℚ)| := by exact_mod_cast (abs_tmod_lt l hr).le
  rw [abs_div, div_le_one (lt_of_lt_of_le one_pos (one_le_abs_nearest hr))]
  exact abs_nearest_le hle

/-- What is computed for the part of a quotient after the point. -/
def fraction (l r : ℤ) : ℚ := nearest (nearest (l.tmod r) / nearest r)

theorem abs_fraction_le_one (l : ℤ) {r : ℤ} (hr : r ≠ 0) : |fraction l r| ≤ 1 := by
  have hle := abs_rest_div_le_one l hr
  rw [← pow_zero 2] at hle ⊢
  exact abs_nearest_le_two_pow hle

/-- The quotient of two words, step by step, with every step rounded. -/
theorem toRat?_quotient {l r : ℤ} (hl : |l| ≤ 2 ^ 63) (hr : |r| ≤ 2 ^ 63) (hne : r ≠ 0) :
    (quotient l r).toRat? = some
      (if l.tmod r = 0 then nearest (l.tdiv r)
      else if l.natAbs ≤ exactLimit ∧ r.natAbs ≤ exactLimit then nearest (nearest l / nearest r)
      else nearest (nearest (l.tdiv r) + fraction l r)) := by
  have hone := one_le_abs_nearest hne
  have hnonzero : nearest r ≠ 0 := abs_pos.mp (lt_of_lt_of_le one_pos hone)
  have hwhole : |(l.tdiv r : ℚ)| ≤ 2 ^ 63 := by exact_mod_cast (abs_tdiv_le l r).trans hl
  have hrest := (abs_tmod_lt l hne).le
  have hdivisor := toRat?_ofInt (n := r) (hr.trans (by norm_num))
  have hquot : (ofInt (l.tdiv r)).toRat? = some (nearest (l.tdiv r)) :=
    toRat?_ofInt ((abs_tdiv_le l r).trans (hl.trans (by norm_num)))
  -- the three paths: a whole quotient, two operands of few digits, and whole part plus rest
  unfold quotient
  dsimp only
  split
  · exact hquot
  · split
    · refine toRat?_div (toRat?_ofInt (hl.trans (by norm_num))) hdivisor hnonzero ?_
      have hnear : |nearest l| ≤ 2 ^ 63 := abs_nearest_le_two_pow (by exact_mod_cast hl)
      rw [abs_div]
      exact (div_le_self (abs_nonneg _) hone).trans (hnear.trans (by norm_num))
    · have hfraction : ((ofInt (l.tmod r)).div (ofInt r)).toRat? = some (fraction l r) :=
        toRat?_div (toRat?_ofInt (hrest.trans (hr.trans (by norm_num)))) hdivisor hnonzero
          ((abs_rest_div_le_one l hne).trans (by norm_num))
      refine toRat?_add hquot hfraction ?_
      have hsum := abs_add_le (nearest (l.tdiv r)) (fraction l r)
      have hnear := abs_nearest_le_two_pow hwhole
      have hsmall := abs_fraction_le_one l hne
      linarith

end Calculator
