import Mathlib
import Calculator.Proofs.Binary64.Nearest
import Calculator.Proofs.Text.Numeral
import Calculator.Proofs.Text.Slice
import Calculator.Binary64.Decimal

/-!
# Decimal numbers as texts

A decimal number has a sign or none, digits, a point and digits again, and no exponent (`Decimal`). It
stands for a rational, and is read as the double-precision number nearest to that. Its text can be taken
apart in one way only (`Decimal.text_injective`).
-/

namespace Calculator

open Binary64 Text

theorem Binary64.unitsPerOne_eq (places : ℕ) : unitsPerOne places = 10 ^ places := rfl

/-- A decimal number as it is written, with at least one digit on each side of the point. -/
structure Decimal where
  negative : Bool
  whole : List Char
  decimals : List Char
  whole_ne_nil : whole ≠ []
  decimals_ne_nil : decimals ≠ []
  isDigit_of_mem_whole : ∀ c ∈ whole, c.isDigit = true
  isDigit_of_mem_decimals : ∀ c ∈ decimals, c.isDigit = true

namespace Decimal

/-- The text of a decimal number. -/
def text (d : Decimal) : List Char :=
  (if d.negative then ['-'] else []) ++ (d.whole ++ '.' :: d.decimals)

/-- What its digits stand for. -/
def magnitude (d : Decimal) : ℚ :=
  readNumeral d.whole + readNumeral d.decimals / 10 ^ d.decimals.length

/-- What it stands for. -/
def toRat (d : Decimal) : ℚ :=
  if d.negative then -d.magnitude else d.magnitude

/-- The double-precision number that it is read as. A zero keeps its sign. -/
def toBinary64 (d : Decimal) : Binary64 :=
  Binary64.round d.negative d.magnitude

theorem magnitude_nonneg (d : Decimal) : 0 ≤ d.magnitude := by
  unfold magnitude
  positivity

theorem point_not_mem_whole (d : Decimal) : '.' ∉ d.whole := fun h =>
  absurd (d.isDigit_of_mem_whole _ h) (by decide)

theorem minus_not_mem_whole (d : Decimal) : '-' ∉ d.whole := fun h =>
  absurd (d.isDigit_of_mem_whole _ h) (by decide)

/-- What starts with a minus sign is no text without a sign. -/
theorem minus_cons_ne {d d' : Decimal} :
    '-' :: (d.whole ++ '.' :: d.decimals) ≠ d'.whole ++ '.' :: d'.decimals := by
  intro h
  obtain ⟨first, others, hwhole⟩ := List.exists_cons_of_ne_nil d'.whole_ne_nil
  rw [hwhole, List.cons_append] at h
  refine d'.minus_not_mem_whole ?_
  rw [hwhole, (List.cons.inj h).1]
  exact List.mem_cons_self

/-- A text is that of one decimal number at most. -/
theorem text_injective {d d' : Decimal} (h : d.text = d'.text) : d = d' := by
  obtain ⟨hsign, hdigits⟩ : d.negative = d'.negative ∧
      d.whole ++ '.' :: d.decimals = d'.whole ++ '.' :: d'.decimals := by
    unfold text at h
    cases hleft : d.negative <;> cases hright : d'.negative <;>
      simp only [hleft, hright, Bool.false_eq_true, if_true, if_false, List.nil_append,
        List.singleton_append] at h
    · exact ⟨rfl, h⟩
    · exact absurd h.symm minus_cons_ne
    · exact absurd h minus_cons_ne
    · exact ⟨rfl, (List.cons.inj h).2⟩
  obtain ⟨hwhole, hdecimals⟩ :=
    cut_unique_of_not_mem d.point_not_mem_whole d'.point_not_mem_whole hdigits
  cases d
  cases d'
  simp_all only

/-! ## Units of a decimal place -/

/-- So many units of a decimal place. -/
def ofUnits (negative : Bool) (places digits : ℕ) : Decimal where
  negative
  whole := numeral (digits / unitsPerOne places)
  decimals := padDigits places (numeral (digits % unitsPerOne places))
  whole_ne_nil := numeral_ne_nil _
  decimals_ne_nil := padDigits_ne_nil _ _
  isDigit_of_mem_whole := fun _ => isDigit_of_mem_numeral
  isDigit_of_mem_decimals := fun _ => isDigit_of_mem_padDigits

section

variable {negative : Bool} {places digits : ℕ}

/-- Behind the point stands what is written for so many decimals. -/
theorem text_ofUnits (hplaces : places ≠ 0) : (ofUnits negative places digits).text =
    (if negative then ['-'] else []) ++ positional places digits := by
  rw [positional, if_neg hplaces]
  rfl

theorem length_decimals_ofUnits (hplaces : places ≠ 0) :
    (ofUnits negative places digits).decimals.length = places := by
  have hlt : digits % unitsPerOne places < 10 ^ places :=
    Nat.mod_lt _ (Nat.pow_pos (by decide))
  have hlength : (numeral (digits % unitsPerOne places)).length ≤ places :=
    (Nat.length_toDigits_le_iff (by decide) (Nat.pos_of_ne_zero hplaces)).mpr hlt
  exact length_padDigits hlength

/-- In tenths, a whole number has the decimal zero. -/
theorem decimals_ofUnits_tenths (n : ℕ) : (ofUnits negative 1 (n * 10)).decimals = ['0'] := by
  have hrest : n * 10 % unitsPerOne 1 = 0 := by
    rw [unitsPerOne_eq, pow_one, Nat.mul_mod_left]
  show padDigits 1 (numeral (n * 10 % unitsPerOne 1)) = ['0']
  rw [hrest]
  rfl

theorem magnitude_ofUnits (hplaces : places ≠ 0) :
    (ofUnits negative places digits).magnitude = digits / 10 ^ places := by
  have hpow : (10 : ℚ) ^ places ≠ 0 := by positivity
  have hsplit : (10 ^ places : ℚ) * (digits / unitsPerOne places : ℕ) +
      (digits % unitsPerOne places : ℕ) = digits := by
    have h := Nat.div_add_mod digits (unitsPerOne places)
    rw [unitsPerOne_eq] at h ⊢
    exact_mod_cast h
  rw [magnitude, length_decimals_ofUnits hplaces, ofUnits]
  dsimp only
  rw [readNumeral_padDigits, readNumeral_numeral, readNumeral_numeral, eq_div_iff hpow, add_mul,
    div_mul_cancel₀ _ hpow, mul_comm]
  exact hsplit

end

end Decimal

end Calculator
