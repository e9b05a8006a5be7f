import Calculator.Operator
import Calculator.Span
import Calculator.Word

/-!
# Expressions

The tree that a source text stands for. Every node keeps the span it was read from; parentheses
make no node, they only widen the span of what they enclose.
-/

namespace Calculator

/-- A number, or an operator between two expressions. -/
inductive Expr where
  | number (value : Word) (span : Span)
  | binary (left : Expr) (operator : Operator) (right : Expr) (span : Span)
  deriving DecidableEq

namespace Expr

/-- The span of the whole expression. -/
def span : Expr → Span
  | .number _ span => span
  | .binary _ _ _ span => span

/-- The same expression with another span. -/
def withSpan (span : Span) : Expr → Expr
  | .number value _ => .number value span
  | .binary left operator right _ => .binary left operator right span

@[simp] theorem span_withSpan (span : Span) (e : Expr) : (e.withSpan span).span = span := by
  cases e <;> rfl

/-- Two operands joined, from the start of the left one to the end of the right one. -/
def join (left : Expr) (operator : Operator) (right : Expr) : Expr :=
  .binary left operator right (left.span.cover right.span)

/-- The number of levels; a number has one. -/
def height : Expr → Nat
  | .number _ _ => 1
  | .binary left _ right _ => max left.height right.height + 1

@[simp] theorem height_withSpan (span : Span) (e : Expr) : (e.withSpan span).height = e.height := by
  cases e <;> rfl

@[simp] theorem height_join (left right : Expr) (operator : Operator) :
    (join left operator right).height = max left.height right.height + 1 := rfl

end Expr

end Calculator
