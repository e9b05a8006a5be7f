/-!
# Decimal numerals

How whole numbers are written and read in base ten. A numeral has no leading zeros when written;
any number of them is accepted when read. A number below zero is written with a minus sign.
-/

namespace Calculator.Text

/-- The decimal digits of a natural number, the highest first. -/
def numeral (n : Nat) : List Char :=
  Nat.toDigits 10 n

/-- An integer in decimal, with a minus sign if it is below zero. -/
def signedNumeral (n : Int) : List Char :=
  if n < 0 then '-' :: numeral n.natAbs else numeral n.natAbs

/-- The number that a run of decimal digits stands for. -/
def readNumeral (digits : List Char) : Nat :=
  Nat.ofDigitChars 10 digits 0

/-- A written number reads back. -/
theorem readNumeral_numeral (n : Nat) : readNumeral (numeral n) = n := by
  simp [readNumeral, numeral]

/-- Leading zeros do not change the number read. -/
theorem readNumeral_zero_cons (digits : List Char) :
    readNumeral ('0' :: digits) = readNumeral digits := by
  simp [readNumeral, Nat.ofDigitChars_cons]

/-- Digits padded with leading zeros to at least `width` places. -/
def padDigits (width : Nat) (digits : List Char) : List Char :=
  List.replicate (width - digits.length) '0' ++ digits

end Calculator.Text
