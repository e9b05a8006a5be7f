import Calculator.Binary64.Arithmetic
import Calculator.Binary64.Decimal
import Calculator.Word

/-!
# Values

What an expression evaluates to: a whole number as long as only sums, differences and products of
whole numbers are taken, and a double-precision number once there was a division.
-/

namespace Calculator

/-- The value of an expression. -/
inductive Value where
  | integer (word : Word)
  | double (number : Binary64)
  deriving DecidableEq

namespace Value

/-- Whether a value is zero, of either sign. -/
def isZero : Value → Bool
  | .integer word => word.toInt = 0
  | .double number => number.isZero

/-- The double-precision number nearest to a value. -/
def toBinary64 : Value → Binary64
  | .integer word => .ofInt word.toInt
  | .double number => number

/-- Whether two values of one kind are equal as numbers; values of two kinds never are. -/
def numEq : Value → Value → Bool
  | .integer a, .integer b => a = b
  | .double a, .double b => a.numEq b
  | _, _ => false

/-- A value in decimal. A double-precision number shows a decimal even if it is whole. -/
def text : Value → List Char
  | .integer word => word.text
  | .double number => if number.isWhole then number.fixedText 1 else number.shortestText

/-- A whole number keeps all its digits, though fewer of them would read back. -/
example : (double (.ofInt 1152921504606846976)).text = "1152921504606846976.0".toList := by
  decide +kernel

end Value

end Calculator
