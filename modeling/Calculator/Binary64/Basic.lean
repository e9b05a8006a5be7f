/-!
# Binary64 numbers

The double-precision numbers of IEEE 754 as exact data: not a number, the two infinities, and the
finite numbers with a sign and a magnitude.

The finite magnitudes stand in increasing order, and a magnitude is named by its place in that
order, its *rank*. The rank is also the magnitude's bit pattern. Every magnitude is a whole number
of *quanta* of 2⁻¹⁰⁷⁴, and `quanta` says how many.

* Below rank 2⁵³ neighbours are one quantum apart, so the rank is the number of quanta.
* From there on the distance doubles after every stretch of 2⁵² ranks (`quanta_succ`).

So `quanta` is one formula for subnormal and normal numbers, and it is strictly increasing.
-/

namespace Calculator

namespace Binary64

/-- How many ranks lie between two doublings of the distance: 2⁵². -/
def stretch : Nat := 4503599627370496

/-- The ranks of the finite magnitudes are the numbers below this one. -/
def infinityRank : Nat := 2047 * stretch

/-- The bit of a pattern that holds the sign: 2⁶³. -/
def signBit : Nat := 9223372036854775808

/-- How many quanta make one: 2¹⁰⁷⁴. -/
def quantaPerOne : Nat := 1 <<< 1074

/-- How often the distance between neighbours has doubled at a rank. -/
def doublings (rank : Nat) : Nat := rank / stretch - 1

/-- The magnitude of a rank, counted in quanta. -/
def quanta (rank : Nat) : Nat :=
  (rank - doublings rank * stretch) <<< doublings rank

end Binary64

/-- A double-precision number. The payload of a value that is not a number is not kept. -/
inductive Binary64 where
  | nan
  | infinite (negative : Bool)
  | finite (negative : Bool) (rank : Fin Binary64.infinityRank)
  deriving DecidableEq

namespace Binary64

/-! ## Ranks and quanta -/

theorem doublings_of_lt {rank : Nat} (h : rank < 2 * stretch) : doublings rank = 0 := by
  unfold doublings stretch at *
  omega

theorem quanta_of_lt {rank : Nat} (h : rank < 2 * stretch) : quanta rank = rank := by
  simp [quanta, doublings_of_lt h]

/-- A rank from the second stretch on is a significand of 53 binary digits, doubled. -/
theorem exists_significand {rank : Nat} (h : 2 * stretch ≤ rank) :
    ∃ m, rank = doublings rank * stretch + m ∧ stretch ≤ m ∧ m < 2 * stretch := by
  refine ⟨rank - doublings rank * stretch, ?_, ?_, ?_⟩ <;>
  · unfold doublings stretch at *
    omega

/-- A significand doubled `k` times. Both ends are allowed: twice a stretch is the first magnitude
of the next one. -/
theorem quanta_add {k m : Nat} (hlow : stretch ≤ m) (hhigh : m ≤ 2 * stretch) :
    quanta (k * stretch + m) = m <<< k := by
  rcases Nat.lt_or_eq_of_le hhigh with hlt | rfl
  · have hd : doublings (k * stretch + m) = k := by
      unfold doublings stretch at *
      omega
    rw [quanta, hd, Nat.add_sub_cancel_left]
  · have hd : doublings (k * stretch + 2 * stretch) = k + 1 := by
      unfold doublings stretch
      omega
    have hm : k * stretch + 2 * stretch - (k + 1) * stretch = stretch := by
      unfold stretch
      omega
    rw [quanta, hd, hm, Nat.shiftLeft_succ, Nat.shiftLeft_eq, Nat.shiftLeft_eq, Nat.mul_assoc]

/-- The next magnitude is farther by one quantum, doubled as often as the rank says. -/
theorem quanta_succ (rank : Nat) : quanta (rank + 1) = quanta rank + 1 <<< doublings rank := by
  rcases Nat.lt_or_ge (rank + 1) (2 * stretch) with hsmall | hlarge
  · have hrank : rank < 2 * stretch := Nat.lt_of_succ_lt hsmall
    rw [quanta_of_lt hsmall, quanta_of_lt hrank, doublings_of_lt hrank, Nat.shiftLeft_zero]
  · rcases Nat.lt_or_eq_of_le hlarge with hlt | heq
    · obtain ⟨m, hm, hlow, hhigh⟩ := exists_significand (Nat.le_of_lt_succ hlt)
      generalize doublings rank = k at hm
      subst hm
      rw [Nat.add_assoc, quanta_add (Nat.le_succ_of_le hlow) hhigh,
        quanta_add hlow (Nat.le_of_lt hhigh)]
      rw [Nat.shiftLeft_eq, Nat.shiftLeft_eq, Nat.shiftLeft_eq, Nat.succ_mul, Nat.one_mul]
    · have hrank : rank < 2 * stretch := by omega
      have hnext := quanta_add (k := 0) (m := rank + 1) (by unfold stretch at *; omega) (by omega)
      rw [quanta_of_lt hrank, doublings_of_lt hrank, Nat.shiftLeft_zero]
      simpa using hnext

theorem quanta_strictMono {low high : Nat} (h : low < high) : quanta low < quanta high := by
  induction high with
  | zero => omega
  | succ high ih =>
    have hpos : 0 < 1 <<< doublings high := by
      rw [Nat.shiftLeft_eq, Nat.one_mul]
      exact Nat.two_pow_pos _
    rw [quanta_succ]
    rcases Nat.lt_or_eq_of_le (Nat.le_of_lt_succ h) with hlt | rfl
    · exact Nat.lt_add_right _ (ih hlt)
    · exact Nat.lt_add_of_pos_right hpos

/-! ## The number that a finite value stands for -/

/-- The magnitude of a rank. -/
def magnitude (rank : Nat) : Rat := mkRat (quanta rank) quantaPerOne

/-- The number with a sign and a magnitude. -/
def signed (negative : Bool) (rank : Nat) : Rat :=
  if negative then -magnitude rank else magnitude rank

/-- The number that a finite value stands for. -/
def toRat? : Binary64 → Option Rat
  | .finite negative rank => some (signed negative rank)
  | .nan | .infinite _ => none

/-- Zero, with a sign. -/
def zero (negative : Bool) : Binary64 := .finite negative ⟨0, by decide⟩

/-- Whether a value is one of the two zeros. -/
def isZero : Binary64 → Bool
  | .finite _ rank => rank.val = 0
  | .nan | .infinite _ => false

/-- Whether a value is finite and has no fractional part. -/
def isWhole : Binary64 → Bool
  | .finite _ rank => quanta rank % quantaPerOne = 0
  | .nan | .infinite _ => false

/-- Whether two values are equal as numbers: the zeros are equal to each other, and what is not a
number is equal to nothing. -/
def numEq : Binary64 → Binary64 → Bool
  | .finite s a, .finite t b => a = b && (s = t || a.val = 0)
  | .infinite s, .infinite t => s = t
  | _, _ => false

/-! ## Bit patterns -/

/-- The value of a sixty-four-bit pattern: the top bit is the sign, the others are the rank. -/
def ofBits (bits : Nat) : Binary64 :=
  let negative := decide (signBit ≤ bits)
  let rank := bits % signBit
  if h : rank < infinityRank then .finite negative ⟨rank, h⟩
  else if rank = infinityRank then .infinite negative
  else .nan

/-- The bit pattern of a value that is a number. -/
def toBits? : Binary64 → Option Nat
  | .nan => none
  | .infinite negative => some (negative.toNat * signBit + infinityRank)
  | .finite negative rank => some (negative.toNat * signBit + rank)

/-- A bit pattern gives back the value it was made from. -/
theorem ofBits_toBits {x : Binary64} {bits : Nat} (h : x.toBits? = some bits) : ofBits bits = x := by
  cases x with
  | nan => simp [toBits?] at h
  | infinite negative =>
    obtain rfl := Option.some.inj h
    cases negative <;> decide
  | finite negative rank =>
    obtain rfl := Option.some.inj h
    have hlt := rank.isLt
    unfold infinityRank stretch at hlt
    have hmod : (negative.toNat * signBit + rank.val) % signBit = rank.val := by
      cases negative <;> simp [signBit] <;> omega
    have hsign : decide (signBit ≤ negative.toNat * signBit + rank.val) = negative := by
      cases negative with
      | false =>
        rw [Bool.toNat_false, Nat.zero_mul, Nat.zero_add]
        refine decide_eq_false (Nat.not_le_of_lt ?_)
        unfold signBit
        omega
      | true => simp
    simp only [ofBits, hmod, hsign, rank.isLt, dite_true]

end Binary64

end Calculator
