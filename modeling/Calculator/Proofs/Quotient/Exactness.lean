import Calculator.Proofs.Quotient.Rounded

/-!
# When exact quotients stay exact

A quotient of two words may be a double-precision number although one of the words is not. If the
quotient is at least two in magnitude, it is computed exactly nevertheless: the error of the part
after the point is at most half a unit of the last place of the whole quotient, and where it can be
just as much, the last place is even (`abs_fraction_sub_le`).

A smaller quotient has finer last places than the rounded operands allow for. Then it depends on how
they were rounded, and exact quotients are lost. `quotient_exact_iff` says exactly when.
-/

namespace Calculator

open Binary64

/-! ## The error of the part after the point -/

/-- The relative error of a quotient of approximations. -/
theorem abs_div_sub_div_le {a b p q u : ℚ} (hq : q ≠ 0) (hnonneg : 0 ≤ u) (hu : u < 1)
    (ha : |a - p| ≤ u * |p|) (hb : |b - q| ≤ u * |q|) :
    |a / b - p / q| * (1 - u) ≤ 2 * u * |p / q| := by
  have hqpos : 0 < |q| := abs_pos.mpr hq
  have hlow : (1 - u) * |q| ≤ |b| := by
    have h := abs_sub_abs_le_abs_sub q b
    rw [abs_sub_comm] at h
    linarith
  have hbpos : 0 < |b| := lt_of_lt_of_le (mul_pos (by linarith) hqpos) hlow
  have hb0 : b ≠ 0 := abs_pos.mp hbpos
  have hsplit : a / b - p / q = ((a - p) - p / q * (b - q)) / b := by
    field_simp
    ring
  have hnum : |(a - p) - p / q * (b - q)| ≤ 2 * u * |p / q| * |q| := by
    have htriangle := abs_sub (a - p) (p / q * (b - q))
    have hp : |p| = |p / q| * |q| := by rw [← abs_mul, div_mul_cancel₀ _ hq]
    have hsecond : |p / q * (b - q)| ≤ |p / q| * (u * |q|) := by
      rw [abs_mul]
      exact mul_le_mul_of_nonneg_left hb (abs_nonneg _)
    rw [hp] at ha
    linarith
  rw [hsplit, abs_div, div_mul_eq_mul_div, div_le_iff₀ hbpos]
  calc |(a - p) - p / q * (b - q)| * (1 - u)
      ≤ 2 * u * |p / q| * |q| * (1 - u) := mul_le_mul_of_nonneg_right hnum (by linarith)
    _ = 2 * u * |p / q| * ((1 - u) * |q|) := by ring
    _ ≤ 2 * u * |p / q| * |b| := by
      exact mul_le_mul_of_nonneg_left hlow (by positivity)

theorem abs_nearest_intCast_sub_le (n : ℤ) : |nearest n - n| ≤ 1 / 2 ^ 53 * |(n : ℚ)| := by
  by_cases hn : n = 0
  · simp [hn]
  · have hone : (1 : ℚ) ≤ |(n : ℚ)| := by exact_mod_cast Int.one_le_abs hn
    have hsmall : (1 : ℚ) / 2 ^ 1022 ≤ 1 := div_le_self zero_le_one (one_le_pow₀ (by norm_num))
    have h := abs_nearest_sub_le (hsmall.trans hone)
    rwa [one_div_mul_eq_div]

/-- What is close to a number is still so when it is rounded, if both ends are left alone. -/
theorem abs_nearest_sub_le_of_fixed {x v d : ℚ} (h : |x - v| ≤ d) (hlow : nearest (v - d) = v - d)
    (hhigh : nearest (v + d) = v + d) : |nearest x - v| ≤ d := by
  obtain ⟨hleft, hright⟩ := abs_le.mp h
  have hlower := nearest_mono (x := v - d) (y := x) (by linarith)
  have hupper := nearest_mono (x := x) (y := v + d) (by linarith)
  rw [hlow] at hlower
  rw [hhigh] at hupper
  exact abs_le.mpr ⟨by linarith, by linarith⟩

/-- Up to two digits more can follow the fifty-one behind the point. -/
theorem nearest_add_place {n s : ℤ} {k : ℕ} (hn : |n| < 2 ^ 51) (hk : k ≤ 2) (hs : |s| ≤ 1) :
    nearest (n / 2 ^ 51 + s / 2 ^ (51 + k)) = n / 2 ^ 51 + s / 2 ^ (51 + k) := by
  have hsame : (n : ℚ) / 2 ^ 51 + s / 2 ^ (51 + k) = (2 ^ k * n + s : ℤ) / 2 ^ (51 + k) := by
    rw [pow_add]
    push_cast
    field_simp
  have hpow : (2 : ℤ) ^ k ≤ 2 ^ 2 := pow_le_pow_right₀ (by norm_num) hk
  have hbound : |2 ^ k * n + s| ≤ 2 ^ 53 := by
    calc |2 ^ k * n + s| ≤ |2 ^ k * n| + |s| := abs_add_le _ _
      _ = 2 ^ k * |n| + |s| := by rw [abs_mul, abs_of_pos (by positivity : (0 : ℤ) < 2 ^ k)]
      _ ≤ 2 ^ 2 * (2 ^ 51 - 1) + 1 :=
        add_le_add (mul_le_mul hpow (Int.le_sub_one_of_lt hn) (abs_nonneg n) (by norm_num)) hs
      _ ≤ 2 ^ 53 := by norm_num
  rw [hsame, nearest_div_two_pow (by omega) hbound]

/-- What is off by at most one of these digits still is when it is rounded. -/
theorem abs_nearest_sub_le_place {x : ℚ} {n : ℤ} {k : ℕ} (hn : |n| < 2 ^ 51) (hk : k ≤ 2)
    (h : |x - n / 2 ^ 51| ≤ 1 / 2 ^ (51 + k)) : |nearest x - n / 2 ^ 51| ≤ 1 / 2 ^ (51 + k) := by
  refine abs_nearest_sub_le_of_fixed h ?_ ?_
  · have hfixed := nearest_add_place (s := -1) hn hk (by norm_num)
    rwa [Int.cast_neg, Int.cast_one, neg_div, ← sub_eq_add_neg] at hfixed
  · have hfixed := nearest_add_place (s := 1) hn hk (by norm_num)
    rwa [Int.cast_one] at hfixed

/-- A rest in units of 2⁻⁵¹ of the divisor. -/
theorem abs_lt_of_rest_eq {l r n : ℤ} (hr : r ≠ 0) (h : (l.tmod r : ℚ) / r = n / 2 ^ 51) :
    |n| < 2 ^ 51 := by
  have hpos : (0 : ℚ) < |(r : ℚ)| := abs_pos.mpr (by exact_mod_cast hr)
  have hlt : |((l.tmod r : ℤ) : ℚ)| < |(r : ℚ)| := by exact_mod_cast abs_tmod_lt l hr
  have hone : |(n : ℚ) / 2 ^ 51| < 1 := by
    rw [← h, abs_div, div_lt_one hpos]
    exact hlt
  rw [abs_div, abs_of_pos (by positivity : (0 : ℚ) < 2 ^ 51), div_lt_one (by positivity)] at hone
  exact_mod_cast hone

/-- The part after the point is off by at most two units of 2⁻⁵³. -/
theorem abs_fraction_sub_le {l r n : ℤ} (hr : r ≠ 0) (h : (l.tmod r : ℚ) / r = n / 2 ^ 51) :
    |fraction l r - n / 2 ^ 51| ≤ 1 / 2 ^ 52 := by
  have hn := abs_lt_of_rest_eq hr h
  have hcast : |(n : ℚ)| ≤ 2 ^ 51 - 1 := by exact_mod_cast Int.le_sub_one_of_lt hn
  have herror := abs_div_sub_div_le (by exact_mod_cast hr) (by norm_num) (by norm_num)
    (abs_nearest_intCast_sub_le (l.tmod r)) (abs_nearest_intCast_sub_le r)
  rw [h, abs_div (n : ℚ), abs_of_pos (by positivity : (0 : ℚ) < 2 ^ 51)] at herror
  have hnear : |nearest (l.tmod r) / nearest r - n / 2 ^ 51| ≤ 1 / 2 ^ 52 := by linarith
  exact abs_nearest_sub_le_place (k := 1) hn (by decide) hnear

/-- A divisor that is a multiple of 2⁵¹ is not changed, and then only the rest adds to the error. -/
theorem abs_fraction_sub_le_of_dvd {l r n : ℤ} (hr : r ≠ 0) (hbound : |r| ≤ 2 ^ 63)
    (hdvd : 2 ^ 51 ∣ r) (h : (l.tmod r : ℚ) / r = n / 2 ^ 51) :
    |fraction l r - n / 2 ^ 51| ≤ 1 / 2 ^ 53 := by
  have hn := abs_lt_of_rest_eq hr h
  have hdivisor : nearest r = r := by
    obtain ⟨g, rfl⟩ := hdvd
    have hg : |g| ≤ 2 ^ 53 := by
      rw [abs_mul, abs_of_pos (by norm_num : (0 : ℤ) < 2 ^ 51)] at hbound
      linarith
    have hfixed := nearest_scaled (i := 51) (j := 0) (by decide) hg
    rw [pow_zero, div_one] at hfixed
    rw [mul_comm, Int.cast_mul, Int.cast_pow, Int.cast_ofNat, hfixed]
  have hpos : (0 : ℚ) < |(r : ℚ)| := abs_pos.mpr (by exact_mod_cast hr)
  have hnear : |nearest (l.tmod r) / nearest r - n / 2 ^ 51| ≤ 1 / 2 ^ 53 := by
    have hlt : |((l.tmod r : ℤ) : ℚ)| ≤ |(r : ℚ)| := by exact_mod_cast (abs_tmod_lt l hr).le
    have herror := abs_nearest_intCast_sub_le (l.tmod r)
    rw [hdivisor, ← h, ← sub_div, abs_div, div_le_iff₀ hpos]
    exact herror.trans (mul_le_mul_of_nonneg_left hlt (by norm_num))
  exact abs_nearest_sub_le_place (k := 2) hn (by decide) hnear

/-! ## Quotients that are not whole -/

theorem ne_intCast_of_tmod_ne_zero {l r : ℤ} (hr : r ≠ 0) (hrest : l.tmod r ≠ 0) (n : ℤ) :
    (l : ℚ) / r ≠ n := by
  intro h
  have hne : (r : ℚ) ≠ 0 := by exact_mod_cast hr
  rw [div_eq_iff hne] at h
  have hmul : l = n * r := by exact_mod_cast h
  exact hrest (Int.tmod_eq_zero_of_dvd ⟨n, hmul.trans (mul_comm n r)⟩)

theorem two_pow_mul_eq {l r m : ℤ} {j : ℕ} (hr : r ≠ 0) (h : (l : ℚ) / r = m / 2 ^ j) :
    2 ^ j * l = m * r := by
  have hne : (r : ℚ) ≠ 0 := by exact_mod_cast hr
  rw [div_eq_div_iff hne (by positivity)] at h
  rw [mul_comm]
  exact_mod_cast h

theorem abs_tdiv_le_abs_div (l r : ℤ) : |((l.tdiv r : ℤ) : ℚ)| ≤ |(l : ℚ) / r| := by
  have habs : ∀ n : ℤ, |(n : ℚ)| = n.natAbs := fun n => by
    rw [← Int.cast_abs, Int.abs_eq_natAbs, Int.cast_natCast]
  rw [abs_div, habs, habs, habs, Int.natAbs_tdiv]
  exact Nat.cast_div_le

theorem nearest_tdiv {l r m : ℤ} {j : ℕ} (hhigh : |m| < 2 ^ 53) (h : (l : ℚ) / r = m / 2 ^ j) :
    nearest (l.tdiv r) = l.tdiv r := by
  refine nearest_intCast ?_
  have hle := abs_tdiv_le_abs_div l r
  have hm : |(m : ℚ) / 2 ^ j| ≤ |(m : ℚ)| := by
    rw [abs_div, abs_of_pos (by positivity : (0 : ℚ) < 2 ^ j)]
    exact div_le_self (abs_nonneg _) (one_le_pow₀ (by norm_num))
  rw [h] at hle
  have hcast : |((l.tdiv r : ℤ) : ℚ)| ≤ |(m : ℚ)| := hle.trans hm
  have hint : |l.tdiv r| ≤ |m| := by exact_mod_cast hcast
  exact hint.trans hhigh.le

theorem exists_rest_eq {l r m : ℤ} {j : ℕ} (hr : r ≠ 0) (hj : j ≤ 51)
    (h : (l : ℚ) / r = m / 2 ^ j) : ∃ n : ℤ, (l.tmod r : ℚ) / r = n / 2 ^ 51 := by
  refine ⟨m * 2 ^ (51 - j) - l.tdiv r * 2 ^ 51, ?_⟩
  have hpow : (2 : ℚ) ^ 51 = 2 ^ (51 - j) * 2 ^ j := (pow_sub_mul_pow 2 hj).symm
  have hsum := tdiv_add_div (l := l) hr
  have hscaled : (m : ℚ) / 2 ^ j = m * 2 ^ (51 - j) / 2 ^ 51 := by
    rw [hpow]
    field_simp
  rw [h, hscaled] at hsum
  rw [Int.cast_sub, Int.cast_mul, Int.cast_mul, Int.cast_pow, Int.cast_pow, Int.cast_ofNat, sub_div,
    mul_div_cancel_right₀ _ (by positivity)]
  linarith

/-- A quotient that is at least two in magnitude stays exact. -/
theorem nearest_add_fraction_of_two_le {l r : ℤ} {rank : ℕ} (hr : r ≠ 0) (hbound : |r| ≤ 2 ^ 63)
    (hx : |(l : ℚ) / r| = magnitude rank) (hrest : l.tmod r ≠ 0) (hlarge : 2 * |r| ≤ |l|) :
    nearest (nearest (l.tdiv r) + fraction l r) = l / r := by
  have hpos : (0 : ℚ) < |(r : ℚ)| := abs_pos.mpr (by exact_mod_cast hr)
  have htwo : (2 : ℚ) ^ 1 ≤ |(l : ℚ) / r| := by
    rw [abs_div, pow_one, le_div_iff₀ hpos]
    exact_mod_cast hlarge
  obtain ⟨m, j, hj, hlow, hhigh, hvalue⟩ :=
    exists_significand_div hx htwo (ne_intCast_of_tmod_ne_zero hr hrest)
  obtain ⟨n, hn⟩ := exists_rest_eq hr (by omega) hvalue
  have hdistance : (l.tdiv r : ℚ) + fraction l r - m / 2 ^ j = fraction l r - n / 2 ^ 51 := by
    rw [← hvalue, ← tdiv_add_div hr, hn]
    ring
  have herror := abs_fraction_sub_le hr hn
  rw [nearest_tdiv hhigh hvalue, hvalue, nearest_eq_significand_iff (by omega) hlow hhigh, hdistance]
  have hhalf : (1 : ℚ) / 2 ^ 52 ≤ 1 / 2 ^ (j + 1) :=
    one_div_le_one_div_of_le (by positivity) (pow_le_pow_right₀ (by norm_num) (by omega))
  refine ⟨herror.trans hhalf, fun htie => ?_⟩
  by_contra hodd
  -- the error is then that of the finest last place, so the divisor is a multiple of 2⁵¹
  obtain rfl : j = 51 := by
    have hle : (1 : ℚ) / 2 ^ (j + 1) ≤ 1 / 2 ^ 52 := htie.ge.trans herror
    have hpow := (one_div_le_one_div (by positivity) (by positivity)).mp hle
    have hexp := (pow_le_pow_iff_right₀ (by norm_num : (1 : ℚ) < 2)).mp hpow
    omega
  -- but such a divisor is not rounded at all, and the error is smaller
  have hcoprime : IsCoprime ((2 : ℤ) ^ 51) m :=
    (Int.isCoprime_two_left.mpr (Int.not_even_iff_odd.mp hodd)).pow_left
  have hdvd : 2 ^ 51 ∣ r := hcoprime.dvd_of_dvd_mul_left ⟨l, (two_pow_mul_eq hr hvalue).symm⟩
  have hsmall := abs_fraction_sub_le_of_dvd hr hbound hdvd hn
  rw [htie] at hsmall
  norm_num at hsmall

/-- A quotient between one and two in magnitude has its last place at 2⁻⁵². It stays exact if the part
after the point is off by half of that at most. -/
theorem nearest_add_fraction_iff_of_lt_two {l r : ℤ} {rank : ℕ} (hr : r ≠ 0)
    (hx : |(l : ℚ) / r| = magnitude rank) (hrest : l.tmod r ≠ 0) (hlow : |r| < |l|)
    (hhigh : |l| < 2 * |r|) :
    nearest (nearest (l.tdiv r) + fraction l r) = l / r ↔
      |fraction l r - l.tmod r / r| ≤ 1 / 2 ^ 53 ∧
        (|fraction l r - l.tmod r / r| = 1 / 2 ^ 53 → r ∣ 2 ^ 51 * l) := by
  have hpos : (0 : ℚ) < |(r : ℚ)| := abs_pos.mpr (by exact_mod_cast hr)
  have hone : (2 : ℚ) ^ 0 ≤ |(l : ℚ) / r| := by
    rw [abs_div, pow_zero, le_div_iff₀ hpos, one_mul]
    exact_mod_cast hlow.le
  obtain ⟨m, j, hj, hmlow, hmhigh, hvalue⟩ :=
    exists_significand_div hx hone (ne_intCast_of_tmod_ne_zero hr hrest)
  -- below two, no place before the point but the first is taken, so fifty-two are left behind it
  obtain rfl : j = 52 := by
    have htwo : |(l : ℚ) / r| < 2 := by
      rw [abs_div, div_lt_iff₀ hpos]
      exact_mod_cast hhigh
    have hm : (2 : ℚ) ^ 52 < |(m : ℚ)| := by exact_mod_cast hmlow
    rw [hvalue, abs_div, abs_of_pos (by positivity : (0 : ℚ) < 2 ^ j),
      div_lt_iff₀ (by positivity), ← pow_succ'] at htwo
    have hexp := (pow_lt_pow_iff_right₀ (by norm_num : (1 : ℚ) < 2)).mp (hm.trans htwo)
    omega
  have hdistance : (l.tdiv r : ℚ) + fraction l r - m / 2 ^ 52 = fraction l r - l.tmod r / r := by
    rw [← hvalue, ← tdiv_add_div hr]
    ring
  have heven : Even m ↔ r ∣ 2 ^ 51 * l := by
    have hmul := two_pow_mul_eq hr hvalue
    rw [even_iff_two_dvd]
    constructor
    · rintro ⟨c, rfl⟩
      exact ⟨c, by linarith⟩
    · rintro ⟨c, hc⟩
      refine ⟨c, mul_right_cancel₀ hr ?_⟩
      linarith
  rw [nearest_tdiv hmhigh hvalue, hvalue, nearest_eq_significand_iff (by decide) hmlow hmhigh,
    hdistance, heven]

theorem tdiv_tmod_of_lt {l r : ℤ} (h : |l| < |r|) : l.tdiv r = 0 ∧ l.tmod r = l := by
  have hwhole : l.tdiv r = 0 := by
    rw [Int.abs_eq_natAbs, Int.abs_eq_natAbs] at h
    rw [← Int.natAbs_eq_zero, Int.natAbs_tdiv]
    exact Nat.div_eq_of_lt (by exact_mod_cast h)
  have hsplit := Int.mul_tdiv_add_tmod l r
  rw [hwhole, mul_zero, zero_add] at hsplit
  exact ⟨hwhole, hsplit⟩

theorem mul_nearest_nonneg (x : ℚ) : 0 ≤ x * nearest x := by
  rcases nearest_eq_or x with ⟨hsign, h⟩ | ⟨hsign, h⟩
  · rw [h]
    exact mul_nonneg hsign (magnitude_nonneg _)
  · rw [h]
    exact mul_nonneg_of_nonpos_of_nonpos hsign.le (neg_nonpos.mpr (magnitude_nonneg _))

/-- A number of the right sign is rounded to another one exactly if it lies in its interval. -/
theorem nearest_eq_iff_roundsTo {x y : ℚ} {rank : ℕ} (hx : |x| = magnitude rank)
    (hsign : 0 ≤ x * y) : nearest y = x ↔ RoundsTo |y| rank := by
  rw [← rankOf_eq_iff]
  constructor
  · intro h
    rw [← magnitude_strictMono.injective.eq_iff, ← abs_nearest, h, hx]
  · intro h
    have habs : |nearest y| = |x| := by rw [abs_nearest, h, hx]
    rcases abs_eq_abs.mp habs with heq | hneg
    · exact heq
    · -- numbers of both signs are only zero
      have hprod := mul_nearest_nonneg y
      rw [hneg] at hprod
      have hzero : x * y = 0 := le_antisymm (by linarith) hsign
      rcases mul_eq_zero.mp hzero with hx0 | hy0
      · rw [hneg, hx0, neg_zero]
      · rw [hy0, nearest_zero] at hneg ⊢
        linarith

/-- A quotient below one in magnitude is that of the rounded operands, rounded once more. -/
theorem nearest_add_fraction_iff_of_lt {l r : ℤ} {rank : ℕ}
    (hx : |(l : ℚ) / r| = magnitude rank) (hlt : |l| < |r|) :
    nearest (nearest (l.tdiv r) + fraction l r) = l / r ↔
      RoundsTo |nearest l / nearest r| rank := by
  obtain ⟨hwhole, hrest⟩ := tdiv_tmod_of_lt hlt
  have hsign : 0 ≤ (l : ℚ) / r * (nearest l / nearest r) := by
    rw [div_mul_div_comm]
    exact div_nonneg (mul_nearest_nonneg l) (mul_nearest_nonneg r)
  rw [hwhole, Int.cast_zero, nearest_zero, zero_add, fraction, hrest, nearest_nearest]
  exact nearest_eq_iff_roundsTo hx hsign

/-! ## All quotients -/

/-- When a quotient of words that has a rank is computed exactly. A quotient below one in magnitude
is if the rounded operands have a quotient in the interval of the rank, and one between one and two
if the part after the point is off by half a last place at most. -/
def StaysExact (l r : ℤ) (rank : ℕ) : Prop :=
  r ∣ l ∨ (l.natAbs ≤ exactLimit ∧ r.natAbs ≤ exactLimit) ∨ 2 * |r| ≤ |l| ∨
    (|l| < |r| ∧ RoundsTo |nearest l / nearest r| rank) ∨
    (|r| < |l| ∧ |fraction l r - l.tmod r / r| ≤ 1 / 2 ^ 53 ∧
      (|fraction l r - l.tmod r / r| = 1 / 2 ^ 53 → r ∣ 2 ^ 51 * l))

theorem abs_toInt_le (w : Word) : |w.toInt| ≤ 2 ^ 63 := by
  have hmin := w.min_le
  have hmax := w.le_max
  exact abs_le.mpr ⟨by omega, by omega⟩

theorem nearest_of_natAbs_le {n : ℤ} (h : n.natAbs ≤ exactLimit) : nearest n = n := by
  refine nearest_intCast ?_
  rw [Int.abs_eq_natAbs]
  unfold exactLimit at h
  omega

/-- A quotient of words that is a double-precision number is computed exactly in these cases, and in
no others. -/
theorem quotient_exact_iff (l r : Word) (negative : Bool) (rank : Fin infinityRank)
    (hr : r.toInt ≠ 0) (hx : signed negative rank = l.toInt / r.toInt) :
    (quotient l.toInt r.toInt).toRat? = some (l.toInt / r.toInt : ℚ) ↔
      StaysExact l.toInt r.toInt rank := by
  have hl63 := abs_toInt_le l
  have hr63 := abs_toInt_le r
  generalize l.toInt = l at *
  generalize r.toInt = r at *
  have habs : |(l : ℚ) / r| = magnitude rank := by rw [← hx, abs_signed]
  rw [toRat?_quotient hl63 hr63 hr, Option.some.injEq]
  unfold StaysExact
  by_cases hrest : l.tmod r = 0
  · have hdvd : r ∣ l := Int.dvd_of_tmod_eq_zero hrest
    have hwhole : ((l.tdiv r : ℤ) : ℚ) = l / r := by
      rw [← tdiv_add_div hr, hrest, Int.cast_zero, zero_div, add_zero]
    rw [if_pos hrest, hwhole]
    exact iff_of_true (nearest_eq_self habs) (Or.inl hdvd)
  · have hdvd : ¬ r ∣ l := fun h => hrest (Int.tmod_eq_zero_of_dvd h)
    rw [if_neg hrest]
    by_cases hnarrow : l.natAbs ≤ exactLimit ∧ r.natAbs ≤ exactLimit
    · rw [if_pos hnarrow, nearest_of_natAbs_le hnarrow.1, nearest_of_natAbs_le hnarrow.2]
      exact iff_of_true (nearest_eq_self habs) (Or.inr (Or.inl hnarrow))
    · rw [if_neg hnarrow]
      by_cases htwo : 2 * |r| ≤ |l|
      · exact iff_of_true (nearest_add_fraction_of_two_le hr hr63 habs hrest htwo)
          (Or.inr (Or.inr (Or.inl htwo)))
      · have hne : |l| ≠ |r| := fun h => hdvd ((abs_dvd_abs r l).mp (h ▸ dvd_rfl))
        rcases lt_or_gt_of_ne hne with hlt | hgt
        · rw [nearest_add_fraction_iff_of_lt habs hlt]
          simp only [hdvd, hnarrow, htwo, hlt, hlt.not_gt, false_or, true_and, false_and, or_false]
        · rw [nearest_add_fraction_iff_of_lt_two hr habs hrest hgt (not_le.mp htwo)]
          simp only [hdvd, hnarrow, htwo, hgt, hgt.not_gt, false_or, true_and, false_and]

/-- The quotient of two wide words is 5/2, and its rank is that of a number between two and four. -/
theorem quotient_exact_iff_five_halves :
    (36028797018963972 : ℤ) ≠ 0 ∧
      signed false 4612811918334230528 = (90071992547409930 : ℤ) / (36028797018963972 : ℤ) ∧
      ((quotient 90071992547409930 36028797018963972).toRat? =
          some ((90071992547409930 : ℤ) / (36028797018963972 : ℤ) : ℚ) ↔
        StaysExact 90071992547409930 36028797018963972 4612811918334230528) := by
  have hr : (36028797018963972 : ℤ) ≠ 0 := by decide
  have hx : signed false 4612811918334230528 =
      (90071992547409930 : ℤ) / (36028797018963972 : ℤ) := by
    decide +kernel
  exact ⟨hr, hx, quotient_exact_iff ⟨90071992547409930, by decide, by decide⟩
    ⟨36028797018963972, by decide, by decide⟩ false ⟨4612811918334230528, by decide⟩ hr hx⟩

/-- Not every exact quotient stays exact: here it is 3/4, and the next larger number is computed. -/
theorem exists_inexact_quotient :
    ∃ l r : Word, r.toInt ≠ 0 ∧ (∃ x : Binary64, x.toRat? = some (l.toInt / r.toInt : ℚ)) ∧
      (quotient l.toInt r.toInt).toRat? ≠ some (l.toInt / r.toInt : ℚ) := by
  refine ⟨⟨54043195528445958, by decide, by decide⟩, ⟨72057594037927944, by decide, by decide⟩,
    by decide, ⟨.finite false ⟨4604930618986332160, by decide⟩, ?_⟩, ?_⟩
  · decide +kernel
  · have hcomputed : quotient 54043195528445958 72057594037927944 =
        .finite false ⟨4604930618986332161, by decide⟩ := by
      decide +kernel
    rw [hcomputed]
    decide +kernel

end Calculator
