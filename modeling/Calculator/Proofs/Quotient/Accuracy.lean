import Calculator.Proofs.Quotient.Exactness

/-!
# The error of a quotient

A quotient of two words is off by at most one part in 2⁵¹ (`quotient_accurate`).

On the exact paths only one rounding takes place, so the error is one part in 2⁵³. On the third path
up to five roundings do, each of them with an error of that size, and that would be too many. But
they do not all count for the whole quotient.

* If the whole part is zero, the sum is the part after the point, and that is not rounded again.
* Otherwise the part after the point is less than half of the quotient, and so is its share in the
  error.

The whole part and the part after the point have the same sign, so nothing cancels.
-/

namespace Calculator

open Binary64

/-! ## The number that is computed -/

/-- The number that is computed for a quotient. On the exact paths it is the rational, rounded once. -/
def computed (l r : ℤ) : ℚ :=
  if r ∣ l ∨ (l.natAbs ≤ exactLimit ∧ r.natAbs ≤ exactLimit) then nearest (l / r)
  else nearest (nearest (l.tdiv r) + fraction l r)

theorem toRat?_quotient_eq_computed {l r : ℤ} (hl : |l| ≤ 2 ^ 63) (hr : |r| ≤ 2 ^ 63) (hne : r ≠ 0) :
    (quotient l r).toRat? = some (computed l r) := by
  rw [toRat?_quotient hl hr hne, Option.some.injEq, computed]
  by_cases hdvd : r ∣ l
  · rw [if_pos (Int.tmod_eq_zero_of_dvd hdvd), if_pos (Or.inl hdvd), cast_tdiv_of_dvd hne hdvd]
  · have hrest : l.tmod r ≠ 0 := fun h => hdvd (Int.dvd_of_tmod_eq_zero h)
    rw [if_neg hrest]
    by_cases hnarrow : l.natAbs ≤ exactLimit ∧ r.natAbs ≤ exactLimit
    · rw [if_pos hnarrow, if_pos (Or.inr hnarrow), nearest_of_natAbs_le hnarrow.1,
        nearest_of_natAbs_le hnarrow.2]
    · rw [if_neg hnarrow, if_neg (not_or.mpr ⟨hdvd, hnarrow⟩)]

/-! ## Numbers that are not too small -/

theorem one_div_two_pow_le_abs_div {a b : ℚ} (ha : 1 ≤ |a|) (hb : b ≠ 0) (hbound : |b| ≤ 2 ^ 63) :
    1 / 2 ^ 1022 ≤ |a / b| := by
  have hpow : (2 : ℚ) ^ 63 ≤ 2 ^ 1022 := pow_le_pow_right₀ (by norm_num) (by norm_num)
  rw [abs_div]
  exact div_le_div₀ (abs_nonneg a) ha (abs_pos.mpr hb) (hbound.trans hpow)

/-- A quotient of integers that are no wider than words is rounded with an error of one part in 2⁵³. -/
theorem abs_nearest_div_sub_le {l r : ℤ} (hne : r ≠ 0) (hr : |r| ≤ 2 ^ 63) :
    |nearest (l / r) - l / r| ≤ |(l : ℚ) / r| / 2 ^ 53 := by
  by_cases hl : l = 0
  · simp [hl]
  · exact abs_nearest_sub_le (one_div_two_pow_le_abs_div (by exact_mod_cast Int.one_le_abs hl)
      (by exact_mod_cast hne) (by exact_mod_cast hr))

/-! ## The error on the third path -/

/-- Three roundings: of the rest, of the divisor, and of their quotient. -/
theorem abs_fraction_sub_div_le {l r : ℤ} (hne : r ≠ 0) (hr : |r| ≤ 2 ^ 63) :
    |fraction l r - l.tmod r / r| ≤ 1 / 2 ^ 51 * |(l.tmod r : ℚ) / r| := by
  by_cases hrest : l.tmod r = 0
  · simp [fraction, hrest]
  · have hrq : (r : ℚ) ≠ 0 := by exact_mod_cast hne
    have hoperands := abs_div_sub_div_le hrq (by norm_num) (by norm_num)
      (abs_nearest_intCast_sub_le (l.tmod r)) (abs_nearest_intCast_sub_le r)
    have hone := one_le_abs_nearest hne
    have hlarge := one_div_two_pow_le_abs_div (one_le_abs_nearest hrest)
      (abs_pos.mp (lt_of_lt_of_le one_pos hone))
      (abs_nearest_le_two_pow (by exact_mod_cast hr))
    have hrounded := abs_nearest_sub_le hlarge
    have hsize := abs_sub_abs_le_abs_sub (nearest (l.tmod r) / nearest r) (l.tmod r / r)
    have htriangle := abs_sub_le (fraction l r) (nearest (l.tmod r) / nearest r) (l.tmod r / r)
    rw [← fraction] at hrounded
    have hnonneg := abs_nonneg ((l.tmod r : ℚ) / r)
    linarith

/-- Whole part and part after the point lie on the same side of zero. -/
theorem abs_tdiv_add_abs_div {l r : ℤ} (hne : r ≠ 0) :
    |((l.tdiv r : ℤ) : ℚ)| + |(l.tmod r : ℚ) / r| = |(l : ℚ) / r| := by
  have hpos : (0 : ℚ) < r.natAbs := by exact_mod_cast Int.natAbs_pos.mpr hne
  have hsplit : (r.natAbs : ℚ) * (l.natAbs / r.natAbs : ℕ) + (l.natAbs % r.natAbs : ℕ) = l.natAbs := by
    exact_mod_cast Nat.div_add_mod l.natAbs r.natAbs
  rw [abs_div, abs_div]
  simp only [← Int.cast_abs, Int.abs_eq_natAbs, Int.natAbs_tdiv, Int.natAbs_tmod, Int.cast_natCast]
  rw [eq_div_iff hpos.ne', add_mul, div_mul_cancel₀ _ hpos.ne', mul_comm]
  exact hsplit

theorem one_le_abs_div {l r : ℤ} (hne : r ≠ 0) (hwhole : l.tdiv r ≠ 0) : 1 ≤ |(l : ℚ) / r| := by
  have hone : (1 : ℚ) ≤ |((l.tdiv r : ℤ) : ℚ)| := by exact_mod_cast Int.one_le_abs hwhole
  rw [← abs_tdiv_add_abs_div hne]
  exact hone.trans (le_add_of_nonneg_right (abs_nonneg _))

/-- The sum before the last rounding. The part after the point is smaller than the whole part, so only
two and a half of the four parts in 2⁵³ are used up. -/
theorem abs_sum_sub_le {l r : ℤ} (hne : r ≠ 0) (hr : |r| ≤ 2 ^ 63) (hwhole : l.tdiv r ≠ 0) :
    |nearest (l.tdiv r) + fraction l r - l / r| ≤ 5 / 2 ^ 54 * |(l : ℚ) / r| := by
  have hsplit := abs_tdiv_add_abs_div (l := l) hne
  have hone : (1 : ℚ) ≤ |((l.tdiv r : ℤ) : ℚ)| := by exact_mod_cast Int.one_le_abs hwhole
  have hless : |(l.tmod r : ℚ) / r| ≤ 1 := by
    rw [abs_div]
    refine div_le_one_of_le₀ ?_ (abs_nonneg _)
    exact_mod_cast (abs_tmod_lt l hne).le
  have hleft := abs_nearest_intCast_sub_le (l.tdiv r)
  have hright := abs_fraction_sub_div_le (l := l) hne hr
  have htriangle := abs_add_le (nearest (l.tdiv r) - l.tdiv r) (fraction l r - l.tmod r / r)
  have hsame : nearest (l.tdiv r) + fraction l r - l / r =
      nearest (l.tdiv r) - l.tdiv r + (fraction l r - l.tmod r / r) := by
    rw [← tdiv_add_div hne]
    ring
  rw [hsame]
  linarith

/-- The last rounding, of a sum with a whole part. -/
theorem abs_nearest_add_sub_le {l r : ℤ} (hne : r ≠ 0) (hr : |r| ≤ 2 ^ 63) (hwhole : l.tdiv r ≠ 0) :
    |nearest (nearest (l.tdiv r) + fraction l r) - l / r| ≤ 1 / 2 ^ 51 * |(l : ℚ) / r| := by
  have hone := one_le_abs_div hne hwhole
  have hsum := abs_sum_sub_le hne hr hwhole
  have hlarger := abs_sub_abs_le_abs_sub (nearest (l.tdiv r) + fraction l r) (l / r)
  have hsmaller := abs_sub_abs_le_abs_sub ((l : ℚ) / r) (nearest (l.tdiv r) + fraction l r)
  rw [abs_sub_comm] at hsmaller
  have hhalf : (1 : ℚ) / 2 ≤ |nearest (l.tdiv r) + fraction l r| := by linarith
  have hsmall : (1 : ℚ) / 2 ^ 1022 ≤ 1 / 2 :=
    one_div_le_one_div_of_le (by norm_num) (le_self_pow₀ (by norm_num) (by norm_num))
  have hrounded := abs_nearest_sub_le (hsmall.trans hhalf)
  have htriangle := abs_sub_le (nearest (nearest (l.tdiv r) + fraction l r))
    (nearest (l.tdiv r) + fraction l r) (l / r)
  linarith

theorem abs_computed_sub_le {l r : ℤ} (hne : r ≠ 0) (hr : |r| ≤ 2 ^ 63) :
    |computed l r - l / r| ≤ 1 / 2 ^ 51 * |(l : ℚ) / r| := by
  unfold computed
  split
  · have herror := abs_nearest_div_sub_le (l := l) hne hr
    have hnonneg := abs_nonneg ((l : ℚ) / r)
    linarith
  · by_cases hwhole : l.tdiv r = 0
    · have hvalue := tdiv_add_div (l := l) hne
      rw [hwhole, Int.cast_zero, zero_add] at hvalue
      have herror := abs_fraction_sub_div_le (l := l) hne hr
      rw [hvalue] at herror
      rwa [hwhole, Int.cast_zero, nearest_zero, zero_add, fraction, nearest_nearest, ← fraction]
    · exact abs_nearest_add_sub_le hne hr hwhole

/-! ## All quotients -/

/-- What is close enough to a number has its sign. -/
theorem sign_eq_of_abs_sub_le {x y c : ℚ} (hc : c < 1) (h : |y - x| ≤ c * |x|) :
    SignType.sign y = SignType.sign x := by
  obtain ⟨hlower, hupper⟩ := abs_le.mp h
  rcases lt_trichotomy x 0 with hneg | rfl | hpos
  · rw [abs_of_neg hneg] at hupper
    have hy : y < 0 := by nlinarith
    rw [sign_neg hneg, sign_neg hy]
  · rw [abs_zero, mul_zero, sub_zero] at h
    rw [abs_nonpos_iff.mp h]
  · rw [abs_of_pos hpos] at hlower
    have hy : 0 < y := by nlinarith
    rw [sign_pos hpos, sign_pos hy]

/-- The quotient of two words is finite, off by at most one part in 2⁵¹, and on the same side of zero
as the rational; only a zero is divided into a zero. -/
theorem quotient_accurate (l r : Word) (hr : r.toInt ≠ 0) :
    ∃ negative rank, quotient l.toInt r.toInt = .finite negative rank ∧
      |signed negative rank - l.toInt / r.toInt| ≤ 1 / 2 ^ 51 * |(l.toInt / r.toInt : ℚ)| ∧
      SignType.sign (signed negative rank) = SignType.sign (l.toInt / r.toInt : ℚ) ∧
      (signed negative rank = 0 → l.toInt = 0) := by
  have hvalue := toRat?_quotient_eq_computed (abs_toInt_le l) (abs_toInt_le r) hr
  obtain ⟨negative, rank, hfinite, hsigned⟩ := toRat?_eq_some_iff.mp hvalue
  have herror := abs_computed_sub_le (l := l.toInt) hr (abs_toInt_le r)
  have hsign := sign_eq_of_abs_sub_le (by norm_num) herror
  rw [← hsigned] at herror hsign
  refine ⟨negative, rank, hfinite, herror, hsign, fun hzero => ?_⟩
  rw [hzero, sign_zero, eq_comm, sign_eq_zero_iff, div_eq_zero_iff] at hsign
  have hnumerator := hsign.resolve_right (by exact_mod_cast hr)
  exact_mod_cast hnumerator

/-- Two wide words whose quotient is 3/4. The next larger number is computed, and that is close
enough. -/
theorem quotient_accurate_three_quarters :
    (72057594037927944 : ℤ) ≠ 0 ∧
      ∃ negative rank, quotient 54043195528445958 72057594037927944 = .finite negative rank ∧
        |signed negative rank - (54043195528445958 : ℤ) / (72057594037927944 : ℤ)| ≤
          1 / 2 ^ 51 * |((54043195528445958 : ℤ) / (72057594037927944 : ℤ) : ℚ)| ∧
        SignType.sign (signed negative rank) =
          SignType.sign ((54043195528445958 : ℤ) / (72057594037927944 : ℤ) : ℚ) ∧
        (signed negative rank = 0 → (54043195528445958 : ℤ) = 0) := by
  have hr : (72057594037927944 : ℤ) ≠ 0 := by decide
  exact ⟨hr, quotient_accurate ⟨54043195528445958, by decide, by decide⟩
    ⟨72057594037927944, by decide, by decide⟩ hr⟩

end Calculator
