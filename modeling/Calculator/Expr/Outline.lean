import Calculator.Expr.Basic

/-!
# Outlines

An expression written as an indented outline, a line for each number and four for each operator.
A step of the indentation is two blanks; the operands of an operator stand two steps further in.
Spans do not show.
-/

namespace Calculator.Expr

/-- A line of an outline, so many steps in. -/
def outlineLine (level : Nat) (content : List Char) : List Char :=
  List.replicate (2 * level) ' ' ++ content

/-- The lines of the outline of an expression that stands `level` steps in. -/
def outlineLines (level : Nat) : Expr → List (List Char)
  | .number value _ => [outlineLine level ("Num(".toList ++ value.text ++ [')'])]
  | .binary left operator right _ =>
    outlineLine level "BinOp:".toList :: outlineLine (level + 1) "left:".toList ::
      left.outlineLines (level + 2) ++
      outlineLine (level + 1) ("op: ".toList ++ operator.name.toList) ::
      outlineLine (level + 1) "right:".toList :: right.outlineLines (level + 2)

/-- The outline of an expression, each line closed by a line feed. -/
def outline (e : Expr) : List Char :=
  (e.outlineLines 0).flatMap (· ++ ['\n'])

end Calculator.Expr
