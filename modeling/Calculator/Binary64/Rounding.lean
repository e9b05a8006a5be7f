import Calculator.Binary64.Basic

/-!
# Rounding to binary64

How an exact rational becomes a double-precision number: the nearest one, and of two equally near
ones the one whose significand is even.

A magnitude is given as a fraction of quanta. If it has fifty-three binary digits before the point
or fewer, it is rounded to whole quanta. Otherwise the quantum is doubled until fifty-three digits
are left. Either way the rounded significand, added to one stretch of ranks for each doubling, is
the rank: a carry out of the significand goes into the next stretch by itself, and a rank of
`infinityRank` or more is an overflow.
-/

namespace Calculator.Binary64

/-- The natural number nearest to a fraction, a half going to the even neighbour. -/
def roundHalfEven (num den : Nat) : Nat :=
  if 2 * (num % den) < den ∨ (2 * (num % den) = den ∧ num / den % 2 = 0) then num / den
  else num / den + 1

/-- A whole number is not changed. -/
theorem roundHalfEven_mul_right (n : Nat) {den : Nat} (h : 0 < den) :
    roundHalfEven (n * den) den = n := by
  simp [roundHalfEven, h]

/-- How often the quantum is doubled before a magnitude of so many whole quanta is rounded. -/
def roundingShift (whole : Nat) : Nat := Nat.log2 whole - 52

/-- The rank of the magnitude nearest to `num / den` quanta. It is `infinityRank` or more if no
finite magnitude is near enough. -/
def nearestRank (num den : Nat) : Nat :=
  let shift := roundingShift (num / den)
  shift * stretch + roundHalfEven num (den <<< shift)

/-- The double-precision number with a given sign nearest to the magnitude of a rational. -/
def round (negative : Bool) (x : Rat) : Binary64 :=
  let rank := nearestRank (x.num.natAbs * quantaPerOne) x.den
  if h : rank < infinityRank then .finite negative ⟨rank, h⟩ else .infinite negative

/-- The double-precision number nearest to a rational. Zero gives the positive zero. -/
def ofRat (x : Rat) : Binary64 := round (decide (x < 0)) x

/-- The double-precision number nearest to an integer. -/
def ofInt (n : Int) : Binary64 := ofRat n

/-! ## Magnitudes round to themselves -/

theorem roundingShift_quanta (rank : Nat) : roundingShift (quanta rank) = doublings rank := by
  unfold roundingShift
  rcases Nat.lt_or_ge rank (2 * stretch) with hsmall | hlarge
  · rw [quanta_of_lt hsmall, doublings_of_lt hsmall]
    by_cases hzero : rank = 0
    · subst hzero
      rfl
    · have := (Nat.log2_lt (k := 53) hzero).mpr (by unfold stretch at hsmall; omega)
      omega
  · obtain ⟨m, hm, hlow, hhigh⟩ := exists_significand hlarge
    generalize doublings rank = k at hm
    subst hm
    rw [quanta_add hlow (Nat.le_of_lt hhigh), Nat.shiftLeft_eq]
    have hlog : Nat.log2 (m * 2 ^ k) = 52 + k := by
      unfold stretch at hlow hhigh
      have hpos : 0 < 2 ^ k := Nat.two_pow_pos k
      have hne : m * 2 ^ k ≠ 0 := Nat.mul_ne_zero (by omega) (Nat.ne_of_gt hpos)
      refine (Nat.log2_eq_iff hne).mpr ⟨?_, ?_⟩
      · rw [Nat.pow_add]
        exact Nat.mul_le_mul_right _ hlow
      · rw [show 52 + k + 1 = 53 + k by omega, Nat.pow_add]
        exact Nat.mul_lt_mul_of_pos_right hhigh hpos
    omega

/-- A magnitude is its own nearest neighbour, in whatever terms the fraction is written. -/
theorem nearestRank_quanta (rank : Nat) {den : Nat} (h : 0 < den) :
    nearestRank (quanta rank * den) den = rank := by
  have hsum : doublings rank * stretch ≤ rank := by
    unfold doublings stretch
    omega
  have hquot : quanta rank * den / den = quanta rank := Nat.mul_div_cancel _ h
  have hnum : quanta rank * den = (rank - doublings rank * stretch) * (den <<< doublings rank) := by
    rw [quanta, Nat.shiftLeft_eq, Nat.shiftLeft_eq, Nat.mul_assoc, Nat.mul_comm (2 ^ _) den]
  have hden : 0 < den <<< doublings rank := by
    rw [Nat.shiftLeft_eq]
    exact Nat.mul_pos h (Nat.two_pow_pos _)
  simp only [nearestRank, hquot, roundingShift_quanta]
  rw [hnum, roundHalfEven_mul_right _ hden]
  omega

end Calculator.Binary64
