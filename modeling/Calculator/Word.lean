import Calculator.Text.Numeral

/-!
# Words

The whole numbers of the calculator: the integers that fit into sixty-four bits with a sign. A
word keeps the integer itself together with the two bounds, so nothing can wrap. Arithmetic goes
through the unbounded integers and comes back by `ofInt?`, which refuses what does not fit.
-/

namespace Calculator

/-- A signed sixty-four-bit integer. -/
@[ext] structure Word where
  toInt : Int
  min_le : -9223372036854775808 ≤ toInt
  le_max : toInt ≤ 9223372036854775807
  deriving DecidableEq

namespace Word

/-- The word of an integer, if the integer is in range. -/
def ofInt? (n : Int) : Option Word :=
  if h : -9223372036854775808 ≤ n ∧ n ≤ 9223372036854775807 then some ⟨n, h.1, h.2⟩ else none

theorem ofInt?_eq_some_iff {n : Int} {w : Word} : ofInt? n = some w ↔ w.toInt = n := by
  unfold ofInt?
  split
  · next h => simp [Word.ext_iff, eq_comm]
  · next h =>
    have hmin := w.min_le
    have hmax := w.le_max
    simp only [reduceCtorEq, false_iff]
    omega

theorem ofInt?_eq_none_iff {n : Int} :
    ofInt? n = none ↔ n < -9223372036854775808 ∨ 9223372036854775807 < n := by
  unfold ofInt?
  split
  · next h =>
    simp only [reduceCtorEq, false_iff]
    omega
  · next h =>
    simp only [true_iff]
    omega

/-- The sum, if it fits. -/
def add? (a b : Word) : Option Word := ofInt? (a.toInt + b.toInt)

/-- The difference, if it fits. -/
def sub? (a b : Word) : Option Word := ofInt? (a.toInt - b.toInt)

/-- The product, if it fits. -/
def mul? (a b : Word) : Option Word := ofInt? (a.toInt * b.toInt)

/-- A word in decimal. -/
def text (w : Word) : List Char := Text.signedNumeral w.toInt

end Word

end Calculator
