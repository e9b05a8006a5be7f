/-!
# Operators

The four operators, their symbols and the two levels at which they bind: products before sums, and
on one level from left to right.
-/

namespace Calculator

/-- How tightly an operator binds. -/
inductive Level where
  | sum
  | product
  deriving DecidableEq, Repr

/-- An operator with two operands. -/
inductive Operator where
  | add
  | subtract
  | multiply
  | divide
  deriving DecidableEq, Repr

namespace Operator

/-- The character that stands for an operator. -/
def symbol : Operator → Char
  | .add => '+'
  | .subtract => '-'
  | .multiply => '*'
  | .divide => '/'

/-- The level at which an operator binds. -/
def level : Operator → Level
  | .add | .subtract => .sum
  | .multiply | .divide => .product

/-- The name of an operator in the outline of an expression. -/
def name : Operator → String
  | .add => "Add"
  | .subtract => "Sub"
  | .multiply => "Mul"
  | .divide => "Div"

/-- The operators. -/
def all : List Operator := [.add, .subtract, .multiply, .divide]

/-- The operator that a character stands for. -/
def ofSymbol? (c : Char) : Option Operator :=
  all.find? fun operator => operator.symbol = c

theorem ofSymbol?_eq_some_iff {c : Char} {operator : Operator} :
    ofSymbol? c = some operator ↔ operator.symbol = c := by
  constructor
  · intro h
    simpa using List.find?_some h
  · rintro rfl
    cases operator <;> rfl

end Operator

end Calculator
