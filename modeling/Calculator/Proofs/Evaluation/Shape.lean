import Calculator.Proofs.Evaluation.Overflow

/-!
# Values of shapes

Evaluation uses spans for nothing but to blame them. So a shape has a value of its own, or a cause of
a fault, and that is what every expression of the shape evaluates to (`Expr.eval_shape`).

Evaluation is compositional: with a node replaced by one that evaluates alike, the whole evaluates as
before (`Expr.eval_replace`). Since faults come in the order of evaluation, this holds of them too.
-/

namespace Calculator

/-- The value of a shape, or the cause of the first fault on the way. -/
def Shape.eval : Shape → Except Cause Value
  | .number value => .ok (.integer value)
  | .binary left operator right => do
    let l ← left.eval
    let r ← right.eval
    operator.apply l r

namespace Expr

theorem mapError_cause_mapError (result : Except Cause Value) (span : Span) :
    (result.mapError (⟨·, span⟩)).mapError Fault.cause = result := by
  cases result <;> rfl

/-- Every expression of a shape evaluates to what the shape does. -/
theorem eval_shape (e : Expr) : e.shape.eval = e.eval.mapError Fault.cause := by
  induction e with
  | number value span => rfl
  | binary left operator right span ihl ihr =>
    rw [shape, Shape.eval, ihl, ihr]
    cases hl : left.eval with
    | error fault =>
      rw [eval_of_left_error hl]
      rfl
    | ok l =>
      cases hr : right.eval with
      | error fault =>
        rw [eval_of_right_error hl hr]
        rfl
      | ok r =>
        rw [eval_of_ok hl hr, mapError_cause_mapError]
        rfl

/-- A node can be replaced by whatever evaluates alike. -/
theorem eval_replace {e node : Expr} {path : List Side} {new : Shape} (hat : e.at? path = some node)
    (hnew : new.eval = node.shape.eval) : (Shape.replace new e.shape path).eval = e.shape.eval := by
  induction e generalizing path with
  | number value span =>
    cases path with
    | nil =>
      obtain rfl := Option.some.inj hat
      exact hnew
    | cons side path => simp [at?] at hat
  | binary left operator right span ihl ihr =>
    cases path with
    | nil =>
      obtain rfl := Option.some.inj hat
      exact hnew
    | cons side path =>
      cases side with
      | left => simp only [shape, Shape.replace, Shape.eval, ihl hat]
      | right => simp only [shape, Shape.replace, Shape.eval, ihr hat]

/-- With a node replaced by one that is no higher, the whole is no higher. -/
theorem height_replace_le {e node : Expr} {path : List Side} {new : Shape}
    (hat : e.at? path = some node) (hnew : new.height ≤ node.height) :
    (Shape.replace new e.shape path).height ≤ e.height := by
  induction e generalizing path with
  | number value span =>
    cases path with
    | nil =>
      obtain rfl := Option.some.inj hat
      exact hnew
    | cons side path => simp [at?] at hat
  | binary left operator right span ihl ihr =>
    cases path with
    | nil =>
      obtain rfl := Option.some.inj hat
      exact hnew
    | cons side path =>
      cases side with
      | left =>
        have hleft := ihl hat
        simp only [shape, Shape.replace, Shape.height, height, height_shape]
        omega
      | right =>
        have hright := ihr hat
        simp only [shape, Shape.replace, Shape.height, height, height_shape]
        omega

theorem one_le_height (e : Expr) : 1 ≤ e.height := by
  cases e with
  | number value span => exact Nat.le_refl 1
  | binary left operator right span => exact Nat.succ_le_succ (Nat.zero_le _)

/-- Expressions of shapes with one value evaluate alike, but for the places of faults. -/
theorem mapError_eval_eq {α : Type} {e e' : Expr} (h : e'.shape.eval = e.shape.eval)
    (f : Cause → α) :
    e'.eval.mapError (fun fault => f fault.cause) = e.eval.mapError fun fault => f fault.cause := by
  have hcauses : ∀ a : Expr, a.eval.mapError (fun fault => f fault.cause) =
      a.shape.eval.mapError f := by
    intro a
    rw [eval_shape]
    cases a.eval <;> rfl
  rw [hcauses, hcauses, h]

end Expr

end Calculator
