import Calculator.Proofs.Quotient.Exactness

/-!
# Quotients that are rounded once

What `RoundsTo` says of neighbouring magnitudes, said of all finite numbers: none is nearer to the
rational, and one that is as near is passed over only for an even rank (`NearestEven`). A rank is even
exactly if the significand is, so this is rounding to nearest with ties to even.

A quotient of words comes out so on two of its three paths. If the divisor divides, the whole part is
the quotient and its conversion is the only rounding, also for the one quotient that is no word. If
both operands have fifty-three binary digits, they are converted without a change, and the division is
the only rounding. The sign is that of the rational, so zero is always positive.
-/

namespace Calculator

open Binary64

namespace Binary64

/-! ## Nearest among all finite numbers -/

theorem RoundsTo.add_magnitude_le {x : ℚ} {rank other : ℕ} (h : RoundsTo x rank)
    (hlt : other < rank) : magnitude other + magnitude rank ≤ 2 * x := by
  obtain ⟨below, rfl⟩ : ∃ below, rank = below + 1 := ⟨rank - 1, by omega⟩
  have hle := magnitude_strictMono.monotone (Nat.le_of_lt_succ hlt)
  have hlower := h.lower below rfl
  linarith

theorem RoundsTo.le_add_magnitude {x : ℚ} {rank other : ℕ} (h : RoundsTo x rank)
    (hlt : rank < other) : 2 * x ≤ magnitude rank + magnitude other := by
  have hle := magnitude_strictMono.monotone hlt
  have hupper := h.upper
  linarith

/-- No magnitude is nearer. -/
theorem RoundsTo.abs_sub_le_abs_sub {x : ℚ} {rank : ℕ} (h : RoundsTo x rank) (other : ℕ) :
    |x - magnitude rank| ≤ |x - magnitude other| := by
  rcases lt_trichotomy other rank with hlt | rfl | hgt
  · have hmid := h.add_magnitude_le hlt
    have hmono := magnitude_strictMono hlt
    refine le_trans (abs_le.mpr ⟨?_, ?_⟩) (le_abs_self _) <;> linarith
  · exact le_rfl
  · have hmid := h.le_add_magnitude hgt
    have hmono := magnitude_strictMono hgt
    refine le_trans (abs_le.mpr ⟨?_, ?_⟩) (neg_le_abs _) <;> linarith

/-- If another magnitude is as near, the rank is even. -/
theorem RoundsTo.even_of_abs_sub_eq {x : ℚ} {rank other : ℕ} (h : RoundsTo x rank)
    (hne : other ≠ rank) (heq : |x - magnitude other| = |x - magnitude rank|) : Even rank := by
  have hmid : 2 * x = magnitude other + magnitude rank := by
    rcases abs_eq_abs.mp heq with hsame | hneg
    · exact absurd (magnitude_strictMono.injective (sub_right_injective hsame)) hne
    · linarith
  rcases lt_or_gt_of_ne hne with hlt | hgt
  · obtain ⟨below, rfl⟩ : ∃ below, rank = below + 1 := ⟨rank - 1, by omega⟩
    have hle := magnitude_strictMono.monotone (Nat.le_of_lt_succ hlt)
    have hlower := h.lower below rfl
    exact h.lower_tie below rfl (by linarith)
  · have hle : magnitude (rank + 1) ≤ magnitude other := magnitude_strictMono.monotone hgt
    have hupper := h.upper
    exact h.upper_tie (by linarith)

/-- A finite number is the one that a rational is rounded to: no finite number is nearer, and if
another one is as near, the rank is even. -/
def NearestEven (x : ℚ) (y : Binary64) : Prop :=
  ∃ negative rank, y = .finite negative rank ∧
    (∀ (z : Binary64) (a : ℚ), z.toRat? = some a → |x - signed negative rank| ≤ |x - a|) ∧
    (∀ (z : Binary64) (a : ℚ), z.toRat? = some a → a ≠ signed negative rank →
      |x - a| = |x - signed negative rank| → Even rank.val)

theorem signed_eq_zero_iff {negative : Bool} {rank : ℕ} : signed negative rank = 0 ↔ rank = 0 := by
  rw [← abs_eq_zero, abs_signed, ← magnitude_zero, magnitude_strictMono.injective.eq_iff]

/-- A rational and what it is rounded to lie on one side of zero, so their distance is that of the
magnitudes. -/
theorem abs_sub_nearest (x : ℚ) : |x - nearest x| = |(|x|) - magnitude (rankOf x)| := by
  rcases le_or_gt 0 x with hx | hx
  · rw [nearest_of_nonneg hx, abs_of_nonneg hx]
  · have hsign : decide (x < 0) = true := decide_eq_true hx
    rw [nearest, hsign, signed_true, abs_of_neg hx, ← abs_neg]
    congr 1
    ring

theorem abs_abs_sub_magnitude_le (x : ℚ) (negative : Bool) (rank : ℕ) :
    |(|x|) - magnitude rank| ≤ |x - signed negative rank| := by
  rw [← abs_signed negative rank]
  exact abs_abs_sub_abs_le_abs_sub _ _

theorem abs_sub_nearest_le (x : ℚ) (negative : Bool) (rank : ℕ) :
    |x - nearest x| ≤ |x - signed negative rank| :=
  calc |x - nearest x| = |(|x|) - magnitude (rankOf x)| := abs_sub_nearest x
    _ ≤ |(|x|) - magnitude rank| := (roundsTo_rankOf x).abs_sub_le_abs_sub rank
    _ ≤ |x - signed negative rank| := abs_abs_sub_magnitude_le x negative rank

theorem even_rankOf_of_abs_sub_eq {x : ℚ} {negative : Bool} {rank : ℕ}
    (hne : signed negative rank ≠ nearest x)
    (heq : |x - signed negative rank| = |x - nearest x|) : Even (rankOf x) := by
  have hrounds := roundsTo_rankOf x
  have hle := abs_abs_sub_magnitude_le x negative rank
  rw [heq, abs_sub_nearest] at hle
  have hsame := le_antisymm hle (hrounds.abs_sub_le_abs_sub rank)
  by_cases hrank : rank = rankOf x
  · -- two numbers of one magnitude are as near only to zero, which is rounded to itself
    have habs : |signed negative rank| = |nearest x| := by rw [abs_signed, abs_nearest, hrank]
    have hopposite : signed negative rank = -nearest x := (abs_eq_abs.mp habs).resolve_left hne
    have hzero : x = 0 := by
      rw [hopposite] at heq hne
      rcases abs_eq_abs.mp heq with hsum | hsum
      · exact absurd (by linarith) hne
      · linarith
    rw [hzero, nearest_zero, neg_zero, signed_eq_zero_iff] at hopposite
    rw [← hrank, hopposite]
    exact Even.zero
  · exact hrounds.even_of_abs_sub_eq hrank hsame

theorem ofRat_eq {x : ℚ} (h : |x| ≤ 2 ^ 64) :
    ofRat x = .finite (decide (x < 0)) ⟨rankOf x, rankOf_lt_infinityRank h⟩ :=
  round_of_lt _

/-- A finite number is what a rational is rounded to if it has the rank and the sign that rounding
gives. -/
theorem nearestEven_of_rankOf {x : ℚ} {negative : Bool} {rank : Fin infinityRank}
    (hrank : rankOf x = rank) (hvalue : signed negative rank = nearest x) :
    NearestEven x (.finite negative rank) := by
  refine ⟨negative, rank, rfl, ?_, ?_⟩ <;> rw [hvalue]
  · intro z a hz
    obtain ⟨sign, other, rfl, rfl⟩ := toRat?_eq_some_iff.mp hz
    exact abs_sub_nearest_le x sign other
  · intro z a hz hne heq
    obtain ⟨sign, other, rfl, rfl⟩ := toRat?_eq_some_iff.mp hz
    rw [← hrank]
    exact even_rankOf_of_abs_sub_eq hne heq

theorem nearestEven_ofRat {x : ℚ} (h : |x| ≤ 2 ^ 64) : NearestEven x (ofRat x) := by
  rw [ofRat_eq h]
  exact nearestEven_of_rankOf rfl rfl

/-! ## Integers that are converted without a change -/

theorem abs_div_le {l r : ℤ} (hr : r ≠ 0) (hl : |l| ≤ 2 ^ 63) : |(l : ℚ) / r| ≤ 2 ^ 64 := by
  have hone : 1 ≤ |(r : ℚ)| := by exact_mod_cast Int.one_le_abs hr
  have hle : |(l : ℚ)| ≤ 2 ^ 63 := by exact_mod_cast hl
  rw [abs_div]
  exact (div_le_self (abs_nonneg _) hone).trans (hle.trans (by norm_num))

theorem abs_le_of_natAbs_le {n : ℤ} (h : n.natAbs ≤ exactLimit) : |n| ≤ 2 ^ 63 := by
  rw [Int.abs_eq_natAbs]
  unfold exactLimit at h
  omega

theorem magnitude_rankOf_intCast {n : ℤ} (h : n.natAbs ≤ exactLimit) :
    magnitude (rankOf n) = |(n : ℚ)| := by
  rw [← abs_nearest, nearest_of_natAbs_le h]

theorem decide_div_neg {x y : ℚ} (hx : x ≠ 0) (hy : y ≠ 0) :
    decide (x / y < 0) = (decide (x < 0) ^^ decide (y < 0)) := by
  rcases lt_or_gt_of_ne hx with hxneg | hxpos <;> rcases lt_or_gt_of_ne hy with hyneg | hypos
  · simp [hxneg, hyneg, (div_pos_of_neg_of_neg hxneg hyneg).not_gt]
  · simp [hxneg, hypos.not_gt, div_neg_of_neg_of_pos hxneg hypos]
  · simp [hxpos.not_gt, hyneg, div_neg_of_pos_of_neg hxpos hyneg]
  · simp [hxpos.not_gt, hypos.not_gt, (div_pos hxpos hypos).not_gt]

/-- Two integers that are converted without a change are divided with one rounding. -/
theorem ofInt_div_ofInt {l r : ℤ} (hl : l ≠ 0) (hr : r ≠ 0) (hleft : l.natAbs ≤ exactLimit)
    (hright : r.natAbs ≤ exactLimit) : (ofInt l).div (ofInt r) = ofRat (l / r) := by
  have hbound : ∀ n : ℤ, n.natAbs ≤ exactLimit → |(n : ℚ)| ≤ 2 ^ 64 := by
    intro n h
    exact_mod_cast (abs_le_of_natAbs_le h).trans (by norm_num)
  have hlq : (l : ℚ) ≠ 0 := by exact_mod_cast hl
  have hrq : (r : ℚ) ≠ 0 := by exact_mod_cast hr
  have hquotient := abs_div_le hr (abs_le_of_natAbs_le hleft)
  have hrank : rankOf r ≠ 0 := by
    intro hzero
    have hmagnitude := magnitude_rankOf_intCast hright
    rw [hzero, magnitude_zero] at hmagnitude
    exact hrq (abs_eq_zero.mp hmagnitude.symm)
  have hsame : rankOf (|(l : ℚ)| / |(r : ℚ)|) = rankOf (l / r) := by
    rw [rankOf_eq_iff, ← abs_div, abs_abs]
    exact roundsTo_rankOf _
  rw [ofInt, ofInt, ofRat_eq (hbound l hleft), ofRat_eq (hbound r hright), ofRat_eq hquotient, div,
    if_neg hrank]
  dsimp only
  rw [magnitude_rankOf_intCast hleft, magnitude_rankOf_intCast hright,
    round_of_lt (by rw [hsame]; exact rankOf_lt_infinityRank hquotient)]
  simp only [hsame, decide_div_neg hlq hrq]

end Binary64

/-! ## The two exact paths -/

theorem quotient_of_dvd {l r : ℤ} (hr : r ≠ 0) (h : r ∣ l) :
    quotient l r = ofRat (l / r) := by
  unfold quotient
  dsimp only
  rw [if_pos (Int.tmod_eq_zero_of_dvd h), ofInt, cast_tdiv_of_dvd hr h]

theorem quotient_of_natAbs_le {l r : ℤ} (hr : r ≠ 0) (hleft : l.natAbs ≤ exactLimit)
    (hright : r.natAbs ≤ exactLimit) : quotient l r = ofRat (l / r) := by
  by_cases hdvd : r ∣ l
  · exact quotient_of_dvd hr hdvd
  · have hrest : l.tmod r ≠ 0 := fun h => hdvd (Int.dvd_of_tmod_eq_zero h)
    have hl : l ≠ 0 := by
      rintro rfl
      exact hdvd (dvd_zero r)
    unfold quotient
    dsimp only
    rw [if_neg hrest, if_pos ⟨hleft, hright⟩, ofInt_div_ofInt hl hr hleft hright]

/-- A quotient of words is too large to be rounded to zero, unless it is zero. -/
theorem nearest_div_ne_zero {l r : ℤ} (hl : l ≠ 0) (hr : r ≠ 0) (hbound : |r| ≤ 2 ^ 63) :
    nearest (l / r) ≠ 0 := by
  have hpos : 0 < |(r : ℚ)| := abs_pos.mpr (by exact_mod_cast hr)
  have hone : 1 ≤ |(l : ℚ)| := by exact_mod_cast Int.one_le_abs hl
  have hle : |(r : ℚ)| ≤ 2 ^ 63 := by exact_mod_cast hbound
  have hsmall : |(1 : ℚ) / 2 ^ 63| ≤ |(l : ℚ) / r| := by
    rw [abs_of_pos (by positivity), abs_div]
    exact div_le_div₀ (abs_nonneg _) hone hpos hle
  have hfixed : nearest (1 / 2 ^ 63) = 1 / 2 ^ 63 := by
    have h := nearest_div_two_pow (m := 1) (j := 63) (by decide) (by norm_num)
    rwa [Int.cast_one] at h
  have hnear := abs_nearest_le hsmall
  rw [hfixed, abs_of_pos (by positivity)] at hnear
  exact abs_pos.mp (lt_of_lt_of_le (by positivity) hnear)

theorem eq_zero_of_isZero {l r : ℤ} (hr : r ≠ 0) (hleft : |l| ≤ 2 ^ 63) (hright : |r| ≤ 2 ^ 63)
    (h : (ofRat (l / r)).isZero = true) : l = 0 := by
  by_contra hl
  rw [ofRat_eq (abs_div_le hr hleft), isZero, decide_eq_true_iff] at h
  have hrank : rankOf (l / r) = 0 := h
  refine nearest_div_ne_zero hl hr hright ?_
  rw [← abs_eq_zero, abs_nearest, hrank, magnitude_zero]

/-- Where the divisor divides, and where both operands have fifty-three binary digits, the quotient
of two words is their exact quotient, rounded once to the nearest number and to the even one of two.
If it is zero, it is the positive zero. -/
theorem quotient_rounded_once (l r : Word) (hr : r.toInt ≠ 0)
    (hpath : r.toInt ∣ l.toInt ∨ (l.toInt.natAbs ≤ exactLimit ∧ r.toInt.natAbs ≤ exactLimit)) :
    quotient l.toInt r.toInt = ofRat (l.toInt / r.toInt) ∧
      NearestEven (l.toInt / r.toInt) (quotient l.toInt r.toInt) ∧
      ((quotient l.toInt r.toInt).isZero = true → quotient l.toInt r.toInt = zero false) := by
  have hsame : quotient l.toInt r.toInt = ofRat (l.toInt / r.toInt) := by
    rcases hpath with hdvd | ⟨hleft, hright⟩
    · exact quotient_of_dvd hr hdvd
    · exact quotient_of_natAbs_le hr hleft hright
  rw [hsame]
  refine ⟨rfl, nearestEven_ofRat (abs_div_le hr (abs_toInt_le l)), fun hzero => ?_⟩
  rw [eq_zero_of_isZero hr (abs_toInt_le l) (abs_toInt_le r) hzero, Int.cast_zero, zero_div]
  decide +kernel

/-- The least word divided by minus one: the quotient 2⁶³ is no word. -/
theorem quotient_rounded_once_least_word :
    ∃ l r : Word, l.toInt = -9223372036854775808 ∧ r.toInt ≠ 0 ∧ r.toInt ∣ l.toInt ∧
      quotient l.toInt r.toInt = ofRat (l.toInt / r.toInt) ∧
      NearestEven (l.toInt / r.toInt) (quotient l.toInt r.toInt) ∧
      ((quotient l.toInt r.toInt).isZero = true → quotient l.toInt r.toInt = zero false) := by
  have hr : (-1 : ℤ) ≠ 0 := by decide
  have hdvd : (-1 : ℤ) ∣ -9223372036854775808 := by decide
  exact ⟨⟨-9223372036854775808, by decide, by decide⟩, ⟨-1, by decide, by decide⟩, rfl, hr, hdvd,
    quotient_rounded_once ⟨-9223372036854775808, by decide, by decide⟩
      ⟨-1, by decide, by decide⟩ hr (Or.inl hdvd)⟩

end Calculator
