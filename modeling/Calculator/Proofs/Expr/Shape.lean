import Calculator.Expr.Basic

/-!
# Shapes

An expression without its spans: what is left to compare when two source texts say the same in
different places. A path leads from the root of an expression to one of its nodes, and a shape can
have the node at a path replaced.
-/

namespace Calculator

/-- An expression without spans. -/
inductive Shape where
  | number (value : Word)
  | binary (left : Shape) (operator : Operator) (right : Shape)
  deriving DecidableEq

/-- Which operand of an operator is meant. -/
inductive Side where
  | left
  | right
  deriving DecidableEq, Repr

namespace Shape

/-- The number of levels; a number has one. -/
def height : Shape → Nat
  | .number _ => 1
  | .binary left _ right => max left.height right.height + 1

/-- The shape with the node at a path replaced. A path that leads nowhere changes nothing. -/
def replace (new : Shape) : Shape → List Side → Shape
  | _, [] => new
  | .number value, _ :: _ => .number value
  | .binary left operator right, .left :: path => .binary (replace new left path) operator right
  | .binary left operator right, .right :: path => .binary left operator (replace new right path)

end Shape

namespace Expr

/-- The expression without its spans. -/
def shape : Expr → Shape
  | .number value _ => .number value
  | .binary left operator right _ => .binary left.shape operator right.shape

@[simp] theorem shape_withSpan (span : Span) (e : Expr) : (e.withSpan span).shape = e.shape := by
  cases e <;> rfl

@[simp] theorem shape_join (left right : Expr) (operator : Operator) :
    (join left operator right).shape = .binary left.shape operator right.shape := rfl

/-- Spans do not count as levels. -/
@[simp] theorem height_shape (e : Expr) : e.shape.height = e.height := by
  induction e with
  | number _ _ => rfl
  | binary left _ right _ ihl ihr => simp only [shape, Shape.height, height, ihl, ihr]

/-- The node that a path leads to. -/
def at? : Expr → List Side → Option Expr
  | e, [] => some e
  | .number _ _, _ :: _ => none
  | .binary left _ _ _, .left :: path => left.at? path
  | .binary _ _ right _, .right :: path => right.at? path

@[simp] theorem at?_nil (e : Expr) : e.at? [] = some e := by
  cases e <;> rfl

/-- Only the root of an expression is given another span. -/
theorem at?_withSpan_cons (span : Span) (e : Expr) (side : Side) (path : List Side) :
    (e.withSpan span).at? (side :: path) = e.at? (side :: path) := by
  cases e <;> cases side <;> rfl

/-- A node is no higher than the expression it is in. -/
theorem height_le_of_at? {e node : Expr} {path : List Side} (h : e.at? path = some node) :
    node.height ≤ e.height := by
  induction e generalizing path with
  | number value span =>
    cases path with
    | nil =>
      obtain rfl := Option.some.inj h
      exact Nat.le_refl _
    | cons side path => simp [at?] at h
  | binary left operator right span ihl ihr =>
    cases path with
    | nil =>
      obtain rfl := Option.some.inj h
      exact Nat.le_refl _
    | cons side path =>
      cases side with
      | left => exact Nat.le_trans (ihl h) (Nat.le_succ_of_le (Nat.le_max_left _ _))
      | right => exact Nat.le_trans (ihr h) (Nat.le_succ_of_le (Nat.le_max_right _ _))

/-- Putting a node of the same shape back changes nothing. -/
theorem replace_of_at? {e node : Expr} {path : List Side} (h : e.at? path = some node) :
    Shape.replace node.shape e.shape path = e.shape := by
  induction e generalizing path with
  | number value span =>
    cases path with
    | nil =>
      obtain rfl := Option.some.inj h
      rfl
    | cons side path => simp [at?] at h
  | binary left operator right span ihl ihr =>
    cases path with
    | nil =>
      obtain rfl := Option.some.inj h
      rfl
    | cons side path =>
      cases side with
      | left => simp only [shape, Shape.replace, ihl h]
      | right => simp only [shape, Shape.replace, ihr h]

end Expr

end Calculator
