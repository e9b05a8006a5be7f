import Calculator.Text.Numeral

/-!
# Numerals as texts

A numeral consists of digits, at least of one, and says which number it stands for. A minus sign is no
digit, so this holds of integers as well.
-/

namespace Calculator.Text

theorem isDigit_of_mem_numeral {n : Nat} {c : Char} (h : c ∈ numeral n) : c.isDigit = true :=
  Nat.isDigit_of_mem_toDigits (by decide) (by decide) h

theorem numeral_ne_nil (n : Nat) : numeral n ≠ [] := Nat.toDigits_ne_nil

theorem numeral_injective {m n : Nat} (h : numeral m = numeral n) : m = n := by
  rw [← readNumeral_numeral m, ← readNumeral_numeral n, h]

theorem isDigit_or_eq_of_mem_signedNumeral {n : Int} {c : Char} (h : c ∈ signedNumeral n) :
    c.isDigit = true ∨ c = '-' := by
  unfold signedNumeral at h
  split at h
  · rcases List.mem_cons.mp h with rfl | hmem
    · exact Or.inr rfl
    · exact Or.inl (isDigit_of_mem_numeral hmem)
  · exact Or.inl (isDigit_of_mem_numeral h)

theorem minus_not_mem_numeral (n : Nat) : '-' ∉ numeral n := fun h =>
  absurd (isDigit_of_mem_numeral h) (by decide)

theorem signedNumeral_injective {m n : Int} (h : signedNumeral m = signedNumeral n) : m = n := by
  have hsign : ∀ {a b : Nat}, '-' :: numeral a ≠ numeral b := fun heq =>
    minus_not_mem_numeral _ (heq ▸ List.mem_cons_self)
  unfold signedNumeral at h
  split at h <;> split at h
  · have habs := numeral_injective (List.cons.inj h).2
    omega
  · exact absurd h hsign
  · exact absurd h.symm hsign
  · have habs := numeral_injective h
    omega

/-! ## Leading zeros -/

theorem readNumeral_padDigits (width : Nat) (digits : List Char) :
    readNumeral (padDigits width digits) = readNumeral digits := by
  unfold padDigits
  induction width - digits.length with
  | zero => rfl
  | succ count ih => rw [List.replicate_succ, List.cons_append, readNumeral_zero_cons, ih]

theorem length_padDigits {width : Nat} {digits : List Char} (h : digits.length ≤ width) :
    (padDigits width digits).length = width := by
  rw [padDigits, List.length_append, List.length_replicate]
  omega

theorem isDigit_of_mem_padDigits {width n : Nat} {c : Char} (h : c ∈ padDigits width (numeral n)) :
    c.isDigit = true := by
  rcases List.mem_append.mp h with hzero | hdigit
  · rw [List.eq_of_mem_replicate hzero]
    decide
  · exact isDigit_of_mem_numeral hdigit

theorem padDigits_ne_nil (width n : Nat) : padDigits width (numeral n) ≠ [] := fun h =>
  numeral_ne_nil n (List.append_eq_nil_iff.mp h).2

end Calculator.Text
