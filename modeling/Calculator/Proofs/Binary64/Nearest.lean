import Mathlib
import Calculator.Binary64.Arithmetic

/-!
# Rounding to nearest

What rounding does, without the digits that it is computed with. A magnitude takes up the numbers
that lie nearer to it than to its neighbours, and of the two numbers half way to them both or none,
as its rank is even or odd (`RoundsTo`). These intervals meet without overlapping, so rounding is
monotone (`RoundsTo.rank_le`) and a number is rounded to a rank exactly if it lies in the interval of
the rank (`rankOf_eq_iff`).

`nearest` is rounding as a function on rationals, with the sign and without the bound on finite
numbers. Most of the arithmetic can be done with it.
-/

namespace Calculator.Binary64

/-! ## Magnitudes as rationals -/

/-- The smallest magnitude above zero. -/
def quantum : ℚ := (2 ^ 1074)⁻¹

theorem quantum_pos : 0 < quantum := by
  unfold quantum
  positivity

/-- A power of two in quanta. -/
theorem two_pow_mul_quantum {j : ℕ} (h : j ≤ 1074) : 2 ^ (1074 - j) * quantum = 1 / 2 ^ j := by
  have hsplit : (2 : ℚ) ^ 1074 = 2 ^ (1074 - j) * 2 ^ j := (pow_sub_mul_pow 2 h).symm
  rw [quantum, hsplit]
  field_simp

theorem two_pow_mul_quantum_eq_one : 2 ^ 1074 * quantum = 1 := by
  have h := two_pow_mul_quantum (Nat.zero_le 1074)
  rwa [pow_zero, div_one, Nat.sub_zero] at h

theorem quantaPerOne_mul_quantum : quantaPerOne * quantum = 1 := by
  have hshift : ∀ n : ℕ, ((1 <<< n : ℕ) : ℚ) = 2 ^ n := by
    intro n
    rw [Nat.one_shiftLeft, Nat.cast_pow, Nat.cast_ofNat]
  have hpow : (quantaPerOne : ℚ) = 2 ^ 1074 := hshift 1074
  rw [hpow, two_pow_mul_quantum_eq_one]

theorem magnitude_eq (rank : ℕ) : magnitude rank = quanta rank * quantum := by
  have hne : (quantaPerOne : ℚ) ≠ 0 := left_ne_zero_of_mul_eq_one quantaPerOne_mul_quantum
  rw [magnitude, Rat.mkRat_eq_div, Int.cast_natCast, div_eq_iff hne, mul_assoc, mul_comm quantum,
    quantaPerOne_mul_quantum, mul_one]

theorem magnitude_strictMono : StrictMono magnitude := by
  intro low high h
  rw [magnitude_eq, magnitude_eq]
  have hquanta : (quanta low : ℚ) < quanta high := by exact_mod_cast quanta_strictMono h
  exact mul_lt_mul_of_pos_right hquanta quantum_pos

@[simp] theorem magnitude_zero : magnitude 0 = 0 := by
  rw [magnitude_eq, quanta_of_lt (by decide)]
  simp

theorem magnitude_nonneg (rank : ℕ) : 0 ≤ magnitude rank := by
  rw [← magnitude_zero]
  exact magnitude_strictMono.monotone (Nat.zero_le rank)

@[simp] theorem signed_false (rank : ℕ) : signed false rank = magnitude rank :=
  if_neg Bool.false_ne_true

@[simp] theorem signed_true (rank : ℕ) : signed true rank = -magnitude rank := if_pos rfl

theorem abs_signed (negative : Bool) (rank : ℕ) : |signed negative rank| = magnitude rank := by
  cases negative with
  | false => rw [signed_false, abs_of_nonneg (magnitude_nonneg rank)]
  | true => rw [signed_true, abs_neg, abs_of_nonneg (magnitude_nonneg rank)]

/-- The magnitude of a significand and a number of doublings. -/
theorem magnitude_add {k m : ℕ} (hlow : k = 0 ∨ stretch ≤ m) (hhigh : m ≤ 2 * stretch) :
    magnitude (k * stretch + m) = m * 2 ^ k * quantum := by
  have hquanta : quanta (k * stretch + m) = m * 2 ^ k := by
    by_cases hm : stretch ≤ m
    · rw [quanta_add hm hhigh, Nat.shiftLeft_eq]
    · obtain rfl : k = 0 := by omega
      rw [Nat.zero_mul, Nat.zero_add, quanta_of_lt (by omega), pow_zero, mul_one]
  rw [magnitude_eq, hquanta]
  push_cast
  rfl

/-! ## The numbers that are rounded to a rank -/

/-- A number lies nearer to the magnitude of a rank than to any other magnitude, or half way to a
neighbour and the rank is even. -/
structure RoundsTo (x : ℚ) (rank : ℕ) : Prop where
  lower : ∀ below, rank = below + 1 → magnitude below + magnitude rank ≤ 2 * x
  lower_tie : ∀ below, rank = below + 1 → 2 * x = magnitude below + magnitude rank → Even rank
  upper : 2 * x ≤ magnitude rank + magnitude (rank + 1)
  upper_tie : 2 * x = magnitude rank + magnitude (rank + 1) → Even rank

/-- Between two neighbours, the lower one. -/
theorem RoundsTo.of_floor {x : ℚ} {rank : ℕ} (hle : magnitude rank ≤ x)
    (hupper : 2 * x ≤ magnitude rank + magnitude (rank + 1))
    (htie : 2 * x = magnitude rank + magnitude (rank + 1) → Even rank) : RoundsTo x rank where
  lower := by
    rintro below rfl
    have h := magnitude_strictMono (Nat.lt_succ_self below)
    linarith
  lower_tie := by
    rintro below rfl heq
    have h := magnitude_strictMono (Nat.lt_succ_self below)
    linarith
  upper := hupper
  upper_tie := htie

/-- Between two neighbours, the upper one. -/
theorem RoundsTo.of_ceil {x : ℚ} {rank : ℕ} (hle : x ≤ magnitude (rank + 1))
    (hlower : magnitude rank + magnitude (rank + 1) ≤ 2 * x)
    (htie : 2 * x = magnitude rank + magnitude (rank + 1) → Even (rank + 1)) :
    RoundsTo x (rank + 1) where
  lower := by
    intro below h
    obtain rfl := Nat.succ.inj h
    exact hlower
  lower_tie := by
    intro below h heq
    obtain rfl := Nat.succ.inj h
    exact htie heq
  upper := by
    have h := magnitude_strictMono (Nat.lt_succ_self (rank + 1))
    linarith
  upper_tie := by
    intro heq
    have h := magnitude_strictMono (Nat.lt_succ_self (rank + 1))
    linarith

/-- Up to half of the way from one magnitude to the next, the first one is nearest. -/
theorem RoundsTo.of_way_le {x way : ℚ} {rank : ℕ}
    (hx : x = magnitude rank + way * (magnitude (rank + 1) - magnitude rank)) (hnonneg : 0 ≤ way)
    (hhalf : 2 * way ≤ 1) (htie : 2 * way = 1 → Even rank) : RoundsTo x rank := by
  have hgap : 0 < magnitude (rank + 1) - magnitude rank :=
    sub_pos.mpr (magnitude_strictMono (Nat.lt_succ_self rank))
  refine .of_floor ?_ ?_ ?_
  · rw [hx]
    exact le_add_of_nonneg_right (mul_nonneg hnonneg hgap.le)
  · have h := mul_le_mul_of_nonneg_right hhalf hgap.le
    linarith
  · intro heq
    refine htie (mul_right_cancel₀ hgap.ne' ?_)
    linarith

/-- From half of the way on, the second one is. -/
theorem RoundsTo.of_way_ge {x way : ℚ} {rank : ℕ}
    (hx : x = magnitude rank + way * (magnitude (rank + 1) - magnitude rank)) (hle : way ≤ 1)
    (hhalf : 1 ≤ 2 * way) (htie : 2 * way = 1 → Even (rank + 1)) : RoundsTo x (rank + 1) := by
  have hgap : 0 < magnitude (rank + 1) - magnitude rank :=
    sub_pos.mpr (magnitude_strictMono (Nat.lt_succ_self rank))
  refine .of_ceil ?_ ?_ ?_
  · have h := mul_le_mul_of_nonneg_right hle hgap.le
    linarith
  · have h := mul_le_mul_of_nonneg_right hhalf hgap.le
    linarith
  · intro heq
    refine htie (mul_right_cancel₀ hgap.ne' ?_)
    linarith

/-- A larger number has no smaller rank. -/
theorem RoundsTo.rank_le {x y : ℚ} {m n : ℕ} (hm : RoundsTo x m) (hn : RoundsTo y n) (h : x ≤ y) :
    m ≤ n := by
  by_contra hlt
  obtain ⟨below, rfl⟩ : ∃ below, m = below + 1 := ⟨m - 1, by omega⟩
  have hle : n ≤ below := by omega
  -- both numbers would have to lie half way between two neighbours, and both ranks to be even
  have hmid := magnitude_strictMono.monotone hle
  have hmid' := magnitude_strictMono.monotone (Nat.succ_le_succ hle)
  have hlower := hm.lower below rfl
  have hupper := hn.upper
  have hsame : magnitude n = magnitude below := by linarith
  obtain rfl := magnitude_strictMono.injective hsame
  have heven := hm.lower_tie n rfl (by linarith)
  have heven' := hn.upper_tie (by linarith)
  rw [Nat.even_add_one] at heven
  exact heven heven'

theorem RoundsTo.unique {x : ℚ} {m n : ℕ} (hm : RoundsTo x m) (hn : RoundsTo x n) : m = n :=
  le_antisymm (hm.rank_le hn le_rfl) (hn.rank_le hm le_rfl)

theorem roundsTo_magnitude (rank : ℕ) : RoundsTo (magnitude rank) rank := by
  have h := magnitude_strictMono (Nat.lt_succ_self rank)
  exact .of_floor le_rfl (by linarith) (fun heq => absurd heq (by linarith))

/-! ## The rank that is computed -/

/-- After the shift, fifty-three digits are left before the point, or fewer if nothing is shifted. -/
theorem shifted_bounds {whole digits : ℕ} (h : digits = whole / 2 ^ roundingShift whole) :
    (roundingShift whole = 0 ∨ stretch ≤ digits) ∧ digits < 2 * stretch := by
  have hlog : whole < 2 ^ (Nat.log2 whole + 1) := Nat.lt_log2_self
  subst h
  rcases Nat.lt_or_ge 52 (Nat.log2 whole) with hlarge | hsmall
  · obtain ⟨shift, hshift⟩ : ∃ shift, Nat.log2 whole = 52 + shift := ⟨Nat.log2 whole - 52, by omega⟩
    have hrounding : roundingShift whole = shift := by
      unfold roundingShift
      omega
    have hne : whole ≠ 0 := by
      rintro rfl
      simp at hlarge
    have hlow : 2 ^ 52 * 2 ^ shift ≤ whole := by
      rw [← pow_add, ← hshift]
      exact Nat.log2_self_le hne
    have hhigh : whole < 2 ^ 53 * 2 ^ shift := by
      rw [← pow_add, show 53 + shift = Nat.log2 whole + 1 by omega]
      exact hlog
    have hpos : 0 < 2 ^ shift := Nat.two_pow_pos shift
    rw [hrounding]
    refine ⟨Or.inr ((Nat.le_div_iff_mul_le hpos).mpr hlow), ?_⟩
    exact (Nat.div_lt_iff_lt_mul hpos).mpr hhigh
  · have hshift : roundingShift whole = 0 := by
      unfold roundingShift
      omega
    have hpow : 2 ^ (Nat.log2 whole + 1) ≤ 2 ^ 53 := Nat.pow_le_pow_right (by decide) (by omega)
    rw [hshift, pow_zero, Nat.div_one]
    unfold stretch
    omega

theorem even_mul_stretch_add {k m : ℕ} : Even (k * stretch + m) ↔ Even m := by
  have hstretch : Even (k * stretch) := Even.mul_left (by decide) k
  rw [Nat.even_add]
  tauto

/-- How far a fraction is on the way from its whole part to the next number. -/
def way (num unit : ℕ) : ℚ := (num % unit : ℕ) / unit

theorem way_nonneg (num unit : ℕ) : 0 ≤ way num unit :=
  div_nonneg (Nat.cast_nonneg _) (Nat.cast_nonneg _)

theorem way_le_one (num : ℕ) {unit : ℕ} (h : 0 < unit) : way num unit ≤ 1 := by
  have hrest : ((num % unit : ℕ) : ℚ) ≤ unit := by exact_mod_cast (Nat.mod_lt num h).le
  exact div_le_one_of_le₀ hrest (Nat.cast_nonneg _)

theorem two_mul_way (num unit : ℕ) : 2 * way num unit = (2 * (num % unit) : ℕ) / unit := by
  rw [way, Nat.cast_mul, Nat.cast_ofNat, mul_div_assoc]

theorem div_add_way (num : ℕ) {unit : ℕ} (h : 0 < unit) :
    ((num / unit : ℕ) : ℚ) + way num unit = num / unit := by
  have hne : (unit : ℚ) ≠ 0 := by positivity
  have hsplit : (unit : ℚ) * (num / unit : ℕ) + (num % unit : ℕ) = num := by
    exact_mod_cast Nat.div_add_mod num unit
  rw [way, eq_div_iff hne, add_mul, div_mul_cancel₀ _ hne, mul_comm]
  exact hsplit

/-- Rounding the whole part by half of the way rounds to a rank, wherever neighbours are one whole
apart. -/
theorem roundsTo_roundHalfEven {x : ℚ} {base num unit : ℕ} (hunit : 0 < unit) (hbase : Even base)
    (hx : x = magnitude (base + num / unit) + way num unit *
      (magnitude (base + num / unit + 1) - magnitude (base + num / unit))) :
    RoundsTo x (base + roundHalfEven num unit) := by
  have hpos : (0 : ℚ) < unit := by exact_mod_cast hunit
  have hparity : ∀ n, Even (base + n) ↔ Even n := by
    intro n
    rw [Nat.even_add]
    exact iff_true_left hbase
  have htie : 2 * way num unit = 1 → 2 * (num % unit) = unit := by
    intro h
    rw [two_mul_way, div_eq_one_iff_eq hpos.ne'] at h
    exact_mod_cast h
  rw [roundHalfEven]
  split
  · next hdown =>
    have hle : 2 * (num % unit) ≤ unit := hdown.elim Nat.le_of_lt fun h => h.1.le
    refine .of_way_le hx (way_nonneg num unit) ?_ ?_
    · rw [two_mul_way, div_le_one hpos]
      exact_mod_cast hle
    · intro h
      rw [hparity, Nat.even_iff]
      exact hdown.elim (fun hlt => absurd (htie h) hlt.ne) And.right
  · next hup =>
    have hge : unit ≤ 2 * (num % unit) := Nat.le_of_not_lt fun h => hup (Or.inl h)
    rw [← Nat.add_assoc]
    refine .of_way_ge hx (way_le_one num hunit) ?_ ?_
    · rw [two_mul_way, one_le_div hpos]
      exact_mod_cast hge
    · intro h
      have hodd : ¬ num / unit % 2 = 0 := fun heven => hup (Or.inr ⟨htie h, heven⟩)
      rwa [Nat.even_add_one, hparity, Nat.even_iff]

/-- The rank that is computed is the one that the number is rounded to. -/
theorem roundsTo_nearestRank (num : ℕ) {den : ℕ} (hden : 0 < den) :
    RoundsTo (num / den * quantum) (nearestRank num den) := by
  generalize hshift : roundingShift (num / den) = shift
  have hrank : nearestRank num den = shift * stretch + roundHalfEven num (den <<< shift) := by
    simp only [nearestRank, hshift]
  rw [hrank, Nat.shiftLeft_eq]
  have hunit : 0 < den * 2 ^ shift := Nat.mul_pos hden (Nat.two_pow_pos shift)
  have heven : Even (shift * stretch) := Even.mul_left (by decide) shift
  refine roundsTo_roundHalfEven hunit heven ?_
  have hway := div_add_way num hunit
  obtain ⟨digits, hdigits⟩ : ∃ digits, digits = num / (den * 2 ^ shift) := ⟨_, rfl⟩
  have hsame : digits = num / den / 2 ^ roundingShift (num / den) := by
    rw [hdigits, hshift, Nat.div_div_eq_div_mul]
  obtain ⟨hlow, hhigh⟩ := shifted_bounds hsame
  rw [hshift] at hlow
  have hfloor : magnitude (shift * stretch + digits) = digits * 2 ^ shift * quantum :=
    magnitude_add hlow (Nat.le_of_lt hhigh)
  have hceil : magnitude (shift * stretch + digits + 1) = (digits + 1) * 2 ^ shift * quantum := by
    rw [Nat.add_assoc, magnitude_add (hlow.imp_right Nat.le_succ_of_le) hhigh]
    push_cast
    rfl
  rw [← hdigits] at hway ⊢
  have hshifted : (num : ℚ) / den = (digits + way num (den * 2 ^ shift)) * 2 ^ shift := by
    rw [hway]
    push_cast
    field_simp
  rw [hfloor, hceil, hshifted]
  ring

/-! ## Rounding rationals -/

/-- The rank that a number is rounded to, whatever its sign. -/
def rankOf (x : ℚ) : ℕ := nearestRank (x.num.natAbs * quantaPerOne) x.den

theorem round_eq (negative : Bool) (x : ℚ) : round negative x =
    if h : rankOf x < infinityRank then .finite negative ⟨rankOf x, h⟩ else .infinite negative := by
  unfold round rankOf
  rfl

theorem round_of_lt {negative : Bool} {x : ℚ} (h : rankOf x < infinityRank) :
    round negative x = .finite negative ⟨rankOf x, h⟩ := by
  rw [round_eq, dif_pos h]

theorem eq_of_round_eq {negative sign : Bool} {x : ℚ} {rank : Fin infinityRank}
    (h : round negative x = .finite sign rank) : negative = sign ∧ rankOf x = rank := by
  rw [round_eq] at h
  split at h
  · obtain ⟨hsign, hrank⟩ := Binary64.finite.inj h
    exact ⟨hsign, congrArg Fin.val hrank⟩
  · exact absurd h (by simp)

theorem roundsTo_rankOf (x : ℚ) : RoundsTo |x| (rankOf x) := by
  have hrounds := roundsTo_nearestRank (x.num.natAbs * quantaPerOne) x.den_pos
  have hx : |x| = (x.num.natAbs * quantaPerOne : ℕ) / x.den * quantum := by
    have habs : |x| = |(x.num : ℚ)| / x.den := by
      conv_lhs => rw [← Rat.num_div_den x, abs_div, Nat.abs_cast]
    rw [habs, ← Int.cast_abs, Int.abs_eq_natAbs, Int.cast_natCast, Nat.cast_mul, div_mul_eq_mul_div,
      mul_assoc, quantaPerOne_mul_quantum, mul_one]
  rw [hx]
  exact hrounds

theorem rankOf_eq_iff {x : ℚ} {rank : ℕ} : rankOf x = rank ↔ RoundsTo |x| rank := by
  constructor
  · rintro rfl
    exact roundsTo_rankOf x
  · exact (roundsTo_rankOf x).unique

theorem rankOf_le {x y : ℚ} (h : |x| ≤ |y|) : rankOf x ≤ rankOf y :=
  (roundsTo_rankOf x).rank_le (roundsTo_rankOf y) h

theorem rankOf_eq_of_abs_eq {x : ℚ} {rank : ℕ} (h : |x| = magnitude rank) : rankOf x = rank := by
  rw [rankOf_eq_iff, h]
  exact roundsTo_magnitude rank

/-- A rational, rounded. -/
def nearest (x : ℚ) : ℚ := signed (decide (x < 0)) (rankOf x)

theorem nearest_of_nonneg {x : ℚ} (h : 0 ≤ x) : nearest x = magnitude (rankOf x) := by
  have hsign : decide (x < 0) = false := decide_eq_false h.not_gt
  rw [nearest, hsign, signed_false]

@[simp] theorem nearest_zero : nearest 0 = 0 := by
  have hrank : rankOf 0 = 0 := rankOf_eq_of_abs_eq (by rw [abs_zero, magnitude_zero])
  rw [nearest_of_nonneg le_rfl, hrank, magnitude_zero]

@[simp] theorem nearest_neg (x : ℚ) : nearest (-x) = -nearest x := by
  have hrank : rankOf (-x) = rankOf x := by rw [rankOf_eq_iff, abs_neg, ← rankOf_eq_iff]
  have hpos : ∀ y : ℚ, 0 < y → rankOf (-y) = rankOf y → nearest (-y) = -nearest y := by
    intro y hy h
    have hsign : decide (-y < 0) = true := decide_eq_true (neg_neg_of_pos hy)
    rw [nearest_of_nonneg hy.le, nearest, hsign, h, signed_true]
  rcases lt_trichotomy x 0 with hneg | rfl | hpositive
  · have h := hpos (-x) (neg_pos.mpr hneg) (by rw [neg_neg]; exact hrank.symm)
    rw [neg_neg] at h
    rw [h, neg_neg]
  · simp
  · exact hpos x hpositive hrank

theorem abs_nearest (x : ℚ) : |nearest x| = magnitude (rankOf x) :=
  abs_signed _ _

theorem nearest_mono {x y : ℚ} (h : x ≤ y) : nearest x ≤ nearest y := by
  have hnonneg : ∀ {a b : ℚ}, 0 ≤ a → a ≤ b → nearest a ≤ nearest b := by
    intro a b ha hab
    rw [nearest_of_nonneg ha, nearest_of_nonneg (ha.trans hab)]
    refine magnitude_strictMono.monotone (rankOf_le ?_)
    rwa [abs_of_nonneg ha, abs_of_nonneg (ha.trans hab)]
  rcases le_total 0 x with hx | hx
  · exact hnonneg hx h
  · rcases le_total 0 y with hy | hy
    · -- the two lie on different sides of zero
      have hleft := hnonneg le_rfl (neg_nonneg.mpr hx)
      have hright := hnonneg le_rfl hy
      rw [nearest_neg, nearest_zero] at hleft
      rw [nearest_zero] at hright
      linarith
    · have hneg := hnonneg (neg_nonneg.mpr hy) (neg_le_neg h)
      rw [nearest_neg, nearest_neg] at hneg
      linarith

/-- A number of some magnitude is not changed. -/
theorem nearest_eq_self {x : ℚ} {rank : ℕ} (h : |x| = magnitude rank) : nearest x = x := by
  have hnonneg : ∀ {y : ℚ}, 0 ≤ y → |y| = magnitude rank → nearest y = y := by
    intro y hy hrank
    rw [nearest_of_nonneg hy, rankOf_eq_of_abs_eq hrank, ← hrank, abs_of_nonneg hy]
  rcases le_total 0 x with hx | hx
  · exact hnonneg hx h
  · have hneg := hnonneg (neg_nonneg.mpr hx) (by rwa [abs_neg])
    rw [nearest_neg] at hneg
    linarith

@[simp] theorem nearest_nearest (x : ℚ) : nearest (nearest x) = nearest x :=
  nearest_eq_self (abs_nearest x)

/-! ## Numbers of few digits -/

/-- Fifty-three binary digits, shifted up by any number of places, are a magnitude. -/
theorem exists_magnitude {m : ℕ} (hm : m ≤ 2 * stretch) (k : ℕ) :
    ∃ rank, magnitude rank = m * 2 ^ k * quantum := by
  induction k generalizing m with
  | zero => exact ⟨0 * stretch + m, magnitude_add (Or.inl rfl) hm⟩
  | succ k ih =>
    by_cases hlow : stretch ≤ m
    · exact ⟨(k + 1) * stretch + m, magnitude_add (Or.inr hlow) hm⟩
    · obtain ⟨rank, hrank⟩ := ih (m := 2 * m) (by omega)
      refine ⟨rank, hrank.trans ?_⟩
      push_cast
      ring

/-- Numbers of fifty-three binary digits are not changed. -/
theorem nearest_scaled {m : ℤ} {i j : ℕ} (hj : j ≤ 1074) (hm : |m| ≤ 2 ^ 53) :
    nearest (m * 2 ^ i / 2 ^ j) = m * 2 ^ i / 2 ^ j := by
  have hdigits : m.natAbs ≤ 2 * stretch := by
    rw [Int.abs_eq_natAbs] at hm
    unfold stretch
    omega
  obtain ⟨rank, hrank⟩ := exists_magnitude hdigits (i + (1074 - j))
  have habs : |(m : ℚ)| = (m.natAbs : ℚ) := by rw [← Int.cast_abs, Int.abs_eq_natAbs, Int.cast_natCast]
  have hscaled : |(m : ℚ) * 2 ^ i / 2 ^ j| = magnitude rank := by
    rw [hrank, abs_div, abs_mul, habs, abs_of_nonneg (by positivity), abs_of_nonneg (by positivity),
      pow_add, div_eq_mul_one_div, ← two_pow_mul_quantum hj]
    ring
  exact nearest_eq_self hscaled

theorem nearest_div_two_pow {m : ℤ} {j : ℕ} (hj : j ≤ 1074) (hm : |m| ≤ 2 ^ 53) :
    nearest (m / 2 ^ j) = m / 2 ^ j := by
  have h := nearest_scaled (i := 0) hj hm
  rwa [pow_zero, mul_one] at h

theorem nearest_intCast {m : ℤ} (hm : |m| ≤ 2 ^ 53) : nearest m = m := by
  have h := nearest_div_two_pow (j := 0) (by decide) hm
  rwa [pow_zero, div_one] at h

/-! ## The error of rounding -/

/-- The distance to the next magnitude is small from the second stretch of ranks on. -/
theorem gap_mul_le {rank : ℕ} (h : stretch ≤ rank) :
    (magnitude (rank + 1) - magnitude rank) * 2 ^ 52 ≤ magnitude rank := by
  have hquanta : 1 <<< doublings rank * 2 ^ 52 ≤ quanta rank := by
    unfold quanta
    rw [Nat.shiftLeft_eq, Nat.shiftLeft_eq, one_mul, mul_comm]
    refine Nat.mul_le_mul_right _ ?_
    unfold doublings
    unfold stretch at *
    omega
  have hcast : ((1 <<< doublings rank : ℕ) : ℚ) * 2 ^ 52 ≤ quanta rank := by exact_mod_cast hquanta
  have hmul := mul_le_mul_of_nonneg_right hcast quantum_pos.le
  rw [magnitude_eq, magnitude_eq, quanta_succ, Nat.cast_add]
  linarith

theorem RoundsTo.abs_sub_le {x : ℚ} {rank : ℕ} (h : RoundsTo x rank) (hx : magnitude stretch ≤ x) :
    |magnitude rank - x| ≤ x / 2 ^ 53 := by
  have hrank : stretch ≤ rank := (roundsTo_magnitude stretch).rank_le h hx
  rcases le_or_gt (magnitude rank) x with hle | hgt
  · have hgap := gap_mul_le hrank
    have hupper := h.upper
    rw [abs_of_nonpos (by linarith)]
    linarith
  · -- the neighbour below is in the same position
    have hne : stretch ≠ rank := by
      rintro rfl
      exact absurd hx hgt.not_ge
    obtain ⟨below, rfl⟩ : ∃ below, rank = below + 1 := ⟨rank - 1, by omega⟩
    have hbelow : stretch ≤ below := by omega
    have hgap := gap_mul_le hbelow
    have hlower := h.lower below rfl
    rw [abs_of_pos (by linarith)]
    linarith

theorem magnitude_stretch : magnitude stretch = 1 / 2 ^ 1022 := by
  have h := magnitude_add (k := 0) (m := stretch) (Or.inl rfl) (by omega)
  rw [zero_mul, zero_add] at h
  rw [h, ← two_pow_mul_quantum (by decide)]
  norm_num [stretch]

theorem nearest_eq_or (x : ℚ) :
    (0 ≤ x ∧ nearest x = magnitude (rankOf x)) ∨ (x < 0 ∧ nearest x = -magnitude (rankOf x)) := by
  rcases le_or_gt 0 x with hx | hx
  · exact Or.inl ⟨hx, nearest_of_nonneg hx⟩
  · refine Or.inr ⟨hx, ?_⟩
    rw [nearest, decide_eq_true hx, signed_true]

/-- The relative error of a number that is not too small. -/
theorem abs_nearest_sub_le {x : ℚ} (hx : 1 / 2 ^ 1022 ≤ |x|) : |nearest x - x| ≤ |x| / 2 ^ 53 := by
  have h := (roundsTo_rankOf x).abs_sub_le (by rwa [magnitude_stretch])
  rcases nearest_eq_or x with ⟨hsign, hnearest⟩ | ⟨hsign, hnearest⟩
  · rw [hnearest]
    rwa [abs_of_nonneg hsign] at h ⊢
  · rw [hnearest, ← abs_neg, neg_sub, sub_neg_eq_add, add_comm, ← sub_neg_eq_add]
    rwa [abs_of_neg hsign] at h ⊢

/-! ## The numbers that are rounded to a significand -/

theorem magnitude_significand {m j : ℕ} (hj : j ≤ 1074) (hlow : stretch ≤ m)
    (hhigh : m ≤ 2 * stretch) : magnitude ((1074 - j) * stretch + m) = m / 2 ^ j := by
  rw [magnitude_add (Or.inr hlow) hhigh, mul_assoc, two_pow_mul_quantum hj, mul_one_div]

/-- Where the neighbours on both sides are equally far away, a rank takes up half of the way to them. -/
theorem roundsTo_iff_of_gaps {x value half : ℚ} {below : ℕ} (hhalf : 0 < half)
    (hbelow : magnitude below = value - 2 * half) (hself : magnitude (below + 1) = value)
    (habove : magnitude (below + 1 + 1) = value + 2 * half) :
    RoundsTo x (below + 1) ↔
      |x - value| ≤ half ∧ (|x - value| = half → Even (below + 1)) := by
  constructor
  · intro h
    have hlower := h.lower below rfl
    have hupper := h.upper
    rw [hself, hbelow] at hlower
    rw [hself, habove] at hupper
    refine ⟨abs_le.mpr ⟨by linarith, by linarith⟩, fun heq => ?_⟩
    rcases (abs_eq hhalf.le).mp heq with hright | hleft
    · refine h.upper_tie ?_
      rw [hself, habove]
      linarith
    · refine h.lower_tie below rfl ?_
      rw [hself, hbelow]
      linarith
  · rintro ⟨hle, htie⟩
    obtain ⟨hlower, hupper⟩ := abs_le.mp hle
    refine ⟨?_, ?_, ?_, ?_⟩
    · intro other hother
      obtain rfl : below = other := Nat.succ.inj hother
      rw [hself, hbelow]
      linarith
    · intro other hother heq
      obtain rfl : below = other := Nat.succ.inj hother
      rw [hself, hbelow] at heq
      exact htie ((abs_eq hhalf.le).mpr (Or.inr (by linarith)))
    · rw [hself, habove]
      linarith
    · intro heq
      rw [hself, habove] at heq
      exact htie ((abs_eq hhalf.le).mpr (Or.inl (by linarith)))

/-- A significand of fifty-three digits takes up half a unit of its last place on either side, if it
is not the smallest one. -/
theorem roundsTo_significand_iff {m j : ℕ} (hj : j ≤ 1074) (hlow : stretch < m)
    (hhigh : m < 2 * stretch) {x : ℚ} :
    RoundsTo x ((1074 - j) * stretch + m) ↔
      |x - m / 2 ^ j| ≤ 1 / 2 ^ (j + 1) ∧ (|x - m / 2 ^ j| = 1 / 2 ^ (j + 1) → Even m) := by
  obtain ⟨n, rfl⟩ : ∃ n, m = n + 1 := ⟨m - 1, by omega⟩
  have hself := magnitude_significand hj hlow.le hhigh.le
  have hbelow : magnitude ((1074 - j) * stretch + n) = (n + 1 : ℕ) / 2 ^ j - 2 * (1 / 2 ^ (j + 1)) := by
    rw [magnitude_significand hj (by omega) (by omega)]
    push_cast
    field_simp
    ring
  have habove : magnitude ((1074 - j) * stretch + (n + 1) + 1) =
      (n + 1 : ℕ) / 2 ^ j + 2 * (1 / 2 ^ (j + 1)) := by
    rw [Nat.add_assoc, magnitude_significand hj (by omega) (by omega)]
    push_cast
    field_simp
    ring
  have hparity : Even ((1074 - j) * stretch + (n + 1)) ↔ Even (n + 1) := even_mul_stretch_add
  have hhalf : (0 : ℚ) < 1 / 2 ^ (j + 1) := by positivity
  rw [← hparity]
  -- as a variable, so that the large product is not computed when successors are compared
  generalize (1074 - j) * stretch = base at *
  exact roundsTo_iff_of_gaps hhalf hbelow hself habove

theorem nearest_eq_significand_iff_of_nat {m j : ℕ} (hj : j ≤ 1074) (hlow : stretch < m)
    (hhigh : m < 2 * stretch) {x : ℚ} :
    nearest x = m / 2 ^ j ↔
      |x - m / 2 ^ j| ≤ 1 / 2 ^ (j + 1) ∧ (|x - m / 2 ^ j| = 1 / 2 ^ (j + 1) → Even m) := by
  rcases le_or_gt 0 x with hx | hx
  · rw [← roundsTo_significand_iff hj hlow hhigh, nearest_of_nonneg hx,
      ← magnitude_significand hj hlow.le hhigh.le, magnitude_strictMono.injective.eq_iff,
      rankOf_eq_iff, abs_of_nonneg hx]
  · -- on the other side of zero, nothing is rounded to the significand, and it is too far away
    have hm : (1 : ℚ) ≤ m := by exact_mod_cast (Nat.zero_lt_of_lt hlow)
    have hpow : (0 : ℚ) < 2 ^ j := by positivity
    have hvalue : (1 : ℚ) / 2 ^ (j + 1) < m / 2 ^ j := by
      rw [pow_succ, div_lt_div_iff₀ (by positivity) hpow]
      nlinarith
    have hpositive : (0 : ℚ) < 1 / 2 ^ (j + 1) := by positivity
    constructor
    · intro h
      have hsign := nearest_mono hx.le
      rw [nearest_zero] at hsign
      linarith
    · rintro ⟨hle, -⟩
      have hsign := (abs_le.mp hle).1
      linarith

/-- A number is rounded to a significand of fifty-three digits exactly from half a unit around it. -/
theorem nearest_eq_significand_iff {m : ℤ} {j : ℕ} (hj : j ≤ 1074) (hlow : 2 ^ 52 < |m|)
    (hhigh : |m| < 2 ^ 53) {x : ℚ} :
    nearest x = m / 2 ^ j ↔
      |x - m / 2 ^ j| ≤ 1 / 2 ^ (j + 1) ∧ (|x - m / 2 ^ j| = 1 / 2 ^ (j + 1) → Even m) := by
  obtain ⟨n, rfl | rfl⟩ := m.eq_nat_or_neg
  · rw [Nat.abs_cast] at hlow hhigh
    have h := nearest_eq_significand_iff_of_nat (m := n) (x := x) hj (by unfold stretch; omega)
      (by unfold stretch; omega)
    rwa [Int.cast_natCast, Int.even_coe_nat]
  · rw [abs_neg, Nat.abs_cast] at hlow hhigh
    have h := nearest_eq_significand_iff_of_nat (m := n) (x := -x) hj (by unfold stretch; omega)
      (by unfold stretch; omega)
    have hdistance : |x - (-(n : ℤ) : ℤ) / 2 ^ j| = |-x - n / 2 ^ j| := by
      rw [← abs_neg, Int.cast_neg, Int.cast_natCast]
      congr 1
      ring
    rw [hdistance, even_neg, Int.even_coe_nat, ← h, nearest_neg, Int.cast_neg, Int.cast_natCast,
      neg_div, neg_eq_iff_eq_neg]

/-- Magnitudes from one on are behind the first two stretches of ranks. -/
theorem two_mul_stretch_le {rank i : ℕ} (hlow : 2 ^ i ≤ magnitude rank) : 2 * stretch ≤ rank := by
  have hone : (1 : ℚ) ≤ 2 ^ i := one_le_pow₀ (by norm_num)
  by_contra hlt
  have hle : magnitude rank ≤ magnitude ((1074 - 1073) * stretch + stretch) :=
    magnitude_strictMono.monotone (by omega)
  have hpow : (stretch : ℚ) = 2 ^ 52 := by norm_num [stretch]
  have hsmall : (stretch : ℚ) / 2 ^ 1073 < 1 := by
    rw [hpow, div_lt_one (by positivity)]
    exact pow_lt_pow_right₀ (by norm_num) (by decide)
  rw [magnitude_significand (by decide) le_rfl (by omega)] at hle
  exact absurd (hone.trans (hlow.trans hle)) hsmall.not_ge

/-- A magnitude that is not whole has a significand of fifty-three digits. The larger it is, the fewer
of them are behind the point. -/
theorem exists_significand_magnitude {rank i : ℕ} (hlow : 2 ^ i ≤ magnitude rank)
    (hfraction : ∀ n : ℕ, magnitude rank ≠ n) :
    ∃ m j : ℕ, i + j < 53 ∧ stretch < m ∧ m < 2 * stretch ∧ magnitude rank = m / 2 ^ j := by
  obtain ⟨m, hm, hmlow, hmhigh⟩ := exists_significand (two_mul_stretch_le hlow)
  generalize doublings rank = k at hm
  subst hm
  have hk : k < 1074 := by
    by_contra hge
    obtain ⟨d, rfl⟩ : ∃ d, k = d + 1074 := ⟨k - 1074, by omega⟩
    refine hfraction (m * 2 ^ d) ?_
    rw [magnitude_add (Or.inr hmlow) hmhigh.le, pow_add, mul_assoc, mul_assoc,
      two_pow_mul_quantum_eq_one]
    push_cast
    ring
  obtain ⟨j, hj, rfl⟩ : ∃ j, j ≤ 1074 ∧ k = 1074 - j := ⟨1074 - k, by omega, by omega⟩
  have hvalue := magnitude_significand hj hmlow hmhigh.le
  have hj' : i + j < 53 := by
    have hlt : (2 : ℚ) ^ (i + j) < 2 ^ 53 := by
      rw [hvalue, le_div_iff₀ (by positivity), ← pow_add] at hlow
      refine lt_of_le_of_lt hlow ?_
      unfold stretch at hmhigh
      exact_mod_cast hmhigh
    exact (pow_lt_pow_iff_right₀ (by norm_num)).mp hlt
  -- the smallest significand is a power of two, and whole because so few digits are left
  have hne : m ≠ stretch := by
    rintro rfl
    refine hfraction (2 ^ (52 - j)) ?_
    have hpow : (stretch : ℚ) = 2 ^ (52 - j) * 2 ^ j := by
      rw [← pow_add, Nat.sub_add_cancel (by omega)]
      norm_num [stretch]
    rw [hvalue, hpow]
    push_cast
    field_simp
  exact ⟨m, j, hj', lt_of_le_of_ne hmlow hne.symm, hmhigh, hvalue⟩

/-- A magnitude from a power of two on that is not whole has a significand of fifty-three digits, with
the last ones behind the point. -/
theorem exists_significand_div {x : ℚ} {rank i : ℕ} (h : |x| = magnitude rank) (hlow : 2 ^ i ≤ |x|)
    (hfraction : ∀ n : ℤ, x ≠ n) :
    ∃ (m : ℤ) (j : ℕ), i + j < 53 ∧ 2 ^ 52 < |m| ∧ |m| < 2 ^ 53 ∧ x = m / 2 ^ j := by
  have hwhole : ∀ n : ℕ, magnitude rank ≠ n := by
    intro n hn
    rw [← h] at hn
    rcases abs_choice x with hpos | hneg
    · exact hfraction n (by rw [← hpos, hn, Int.cast_natCast])
    · exact hfraction (-n) (by rw [Int.cast_neg, Int.cast_natCast, ← hn, hneg, neg_neg])
  rw [h] at hlow
  obtain ⟨m, j, hj, hmlow, hmhigh, hvalue⟩ := exists_significand_magnitude hlow hwhole
  have hbounds : 2 ^ 52 < |(m : ℤ)| ∧ |(m : ℤ)| < 2 ^ 53 := by
    rw [Nat.abs_cast]
    unfold stretch at *
    omega
  rcases abs_choice x with hpos | hneg
  · exact ⟨m, j, hj, hbounds.1, hbounds.2, by rw [← hpos, h, hvalue, Int.cast_natCast]⟩
  · refine ⟨-m, j, hj, ?_, ?_, ?_⟩
    · rw [abs_neg]
      exact hbounds.1
    · rw [abs_neg]
      exact hbounds.2
    · rw [Int.cast_neg, Int.cast_natCast, neg_div, ← hvalue, ← h, hneg, neg_neg]

end Calculator.Binary64
