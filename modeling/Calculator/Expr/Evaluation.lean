import Calculator.Expr.Reader
import Calculator.Value

/-!
# Evaluation

The value of an expression: the left operand first, then the right one, then the operator. The
first fault in that order is the one that is given.

Sums, differences and products of whole numbers are whole numbers or an overflow. A quotient is
always a double-precision number, and so is everything that is computed with one.
-/

namespace Calculator

/-! ## Quotients of whole numbers -/

/-- Integers up to this magnitude, 2⁵³, are double-precision numbers. -/
def exactLimit : Nat := 9007199254740992

/-- The quotient of two integers. An exact quotient is rounded once, and so is that of two operands
that are double-precision numbers themselves. Otherwise the whole part and the part after the point
are rounded on their own and added. -/
def quotient (l r : Int) : Binary64 :=
  let whole := l.tdiv r
  let rest := l.tmod r
  if rest = 0 then .ofInt whole
  else if l.natAbs ≤ exactLimit ∧ r.natAbs ≤ exactLimit then (Binary64.ofInt l).div (.ofInt r)
  else (Binary64.ofInt whole).add ((Binary64.ofInt rest).div (.ofInt r))

/-! ## Operators -/

/-- A whole number that an operator gives, if it fits. -/
def checked (operator : Operator) : Option Word → Except Cause Value
  | some word => .ok (.integer word)
  | none => .error (.overflow operator)

/-- What an operator makes of two values. -/
def Operator.apply : Operator → Value → Value → Except Cause Value
  | .add, .integer l, .integer r => checked .add (l.add? r)
  | .add, l, r => .ok (.double (l.toBinary64.add r.toBinary64))
  | .subtract, .integer l, .integer r => checked .subtract (l.sub? r)
  | .subtract, l, r => .ok (.double (l.toBinary64.sub r.toBinary64))
  | .multiply, .integer l, .integer r => checked .multiply (l.mul? r)
  | .multiply, l, r => .ok (.double (l.toBinary64.mul r.toBinary64))
  | .divide, l, r =>
    if r.isZero then .error .divisionByZero
    else
      match l, r with
      | .integer l, .integer r => .ok (.double (quotient l.toInt r.toInt))
      | l, r => .ok (.double (l.toBinary64.div r.toBinary64))

/-! ## Expressions -/

namespace Expr

/-- The value of an expression, or the first fault on the way. -/
def eval : Expr → Except Fault Value
  | .number value _ => .ok (.integer value)
  | .binary left operator right span => do
    let l ← left.eval
    let r ← right.eval
    (operator.apply l r).mapError (⟨·, span⟩)

end Expr

/-- The value of a source text. -/
def evaluate (source : List Char) : Except Fault Value := do
  (← Expr.parse source).eval

end Calculator
