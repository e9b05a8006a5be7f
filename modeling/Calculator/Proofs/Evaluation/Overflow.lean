import Calculator.Expr.Evaluation
import Calculator.Proofs.Expr.Nodes

/-!
# Whole numbers are exact or overflow

Without a division, an expression is an expression over the integers, and `Expr.exact` is its value
there. Evaluation computes in words. It gives the exact value if that of every node fits into a word,
and otherwise blames the first node in post-order whose exact value does not
(`eval_exact_or_overflow`). So nothing wraps, and no value comes out of an intermediate result that
was out of range.

The argument is one step (`Operator.apply_integer`): an operator on two words gives the exact result
or an overflow. Along the tree, evaluation takes the same order as `Expr.nodes`.
-/

namespace Calculator

/-- An integer fits into a word. -/
def Word.Fits (n : Int) : Prop := -9223372036854775808 ≤ n ∧ n ≤ 9223372036854775807

theorem Word.fits_toInt (w : Word) : Word.Fits w.toInt := ⟨w.min_le, w.le_max⟩

theorem Word.ofInt?_eq_none_iff_not_fits {n : Int} : Word.ofInt? n = none ↔ ¬ Word.Fits n := by
  rw [Word.ofInt?_eq_none_iff, Word.Fits]
  omega

/-- What an operator makes of two integers. Of a quotient it is the whole part. -/
def Operator.exact : Operator → Int → Int → Int
  | .add => (· + ·)
  | .subtract => (· - ·)
  | .multiply => (· * ·)
  | .divide => Int.tdiv

/-- The value of an expression over the integers. -/
def Expr.exact : Expr → Int
  | .number value _ => value.toInt
  | .binary left operator right _ => operator.exact left.exact right.exact

/-- No node of an expression is a division. -/
def Expr.NoDivision (e : Expr) : Prop :=
  ∀ left right span, .binary left .divide right span ∉ e.nodes

/-- The exact value of an expression fits into a word. -/
def Expr.Fits (e : Expr) : Prop := Word.Fits e.exact

/-! ## One operator -/

/-- On two words, an operator other than a division gives the exact result or an overflow. -/
theorem Operator.apply_integer {operator : Operator} (h : operator ≠ .divide) (l r : Word) :
    operator.apply (.integer l) (.integer r) =
      checked operator (Word.ofInt? (operator.exact l.toInt r.toInt)) := by
  cases operator with
  | divide => exact absurd rfl h
  | _ => rfl

namespace Expr

section

variable {left right : Expr} {operator : Operator} {span : Span}

theorem eval_of_left_error {fault : Fault} (h : left.eval = .error fault) :
    (binary left operator right span).eval = .error fault := by
  rw [eval, h]
  rfl

theorem eval_of_right_error {l : Value} {fault : Fault} (hl : left.eval = .ok l)
    (h : right.eval = .error fault) : (binary left operator right span).eval = .error fault := by
  rw [eval, hl, h]
  rfl

theorem eval_of_ok {l r : Value} (hl : left.eval = .ok l) (hr : right.eval = .ok r) :
    (binary left operator right span).eval = (operator.apply l r).mapError (⟨·, span⟩) := by
  rw [eval, hl, hr]
  rfl

theorem noDivision_binary :
    (binary left operator right span).NoDivision ↔
      left.NoDivision ∧ right.NoDivision ∧ operator ≠ .divide := by
  simp only [NoDivision, nodes, List.mem_append, List.mem_singleton, not_or]
  constructor
  · intro h
    refine ⟨fun l r s => (h l r s).1.1, fun l r s => (h l r s).1.2, ?_⟩
    rintro rfl
    exact (h left right span).2 rfl
  · rintro ⟨hleft, hright, hoperator⟩ l r s
    refine ⟨⟨hleft l r s, hright l r s⟩, ?_⟩
    intro hsame
    injection hsame with _ hdivide
    exact hoperator hdivide.symm

end

/-! ## Whole expressions -/

/-- An expression evaluates to its exact value, and all nodes fit; or the first node that does not fit
is blamed for an overflow. -/
theorem eval_cases {e : Expr} (h : e.NoDivision) :
    (∃ w, e.eval = .ok (.integer w) ∧ w.toInt = e.exact ∧ ∀ node ∈ e.nodes, node.Fits) ∨
      ∃ left operator right span,
        First (fun node => ¬ node.Fits) e (.binary left operator right span) ∧
          e.eval = .error ⟨.overflow operator, span⟩ := by
  induction e with
  | number value span =>
    refine Or.inl ⟨value, rfl, rfl, ?_⟩
    rw [nodes, List.forall_mem_singleton]
    exact value.fits_toInt
  | binary left operator right span ihl ihr =>
    obtain ⟨hleft, hright, hoperator⟩ := noDivision_binary.mp h
    rcases ihl hleft with ⟨l, hl, hlexact, hlfits⟩ | ⟨l', o', r', s', hfirst, hl⟩
    · have hlnone : ∀ node ∈ left.nodes, ¬ ¬ node.Fits :=
        fun node hnode => not_not_intro (hlfits node hnode)
      rcases ihr hright with ⟨r, hr, hrexact, hrfits⟩ | ⟨l', o', r', s', hfirst, hr⟩
      · have hrnone : ∀ node ∈ right.nodes, ¬ ¬ node.Fits :=
          fun node hnode => not_not_intro (hrfits node hnode)
        have hstep : (binary left operator right span).eval = _ := eval_of_ok hl hr
        rw [Operator.apply_integer hoperator, hlexact, hrexact] at hstep
        cases hword : Word.ofInt? (operator.exact left.exact right.exact) with
        | some w =>
          have hexact := Word.ofInt?_eq_some_iff.mp hword
          rw [hword] at hstep
          refine Or.inl ⟨w, hstep, hexact, forall_nodes_binary.mpr ⟨hlfits, hrfits, ?_⟩⟩
          rw [Fits, exact, ← hexact]
          exact w.fits_toInt
        | none =>
          rw [hword] at hstep
          exact Or.inr ⟨left, operator, right, span,
            .of_root hlnone hrnone (Word.ofInt?_eq_none_iff_not_fits.mp hword), hstep⟩
      · exact Or.inr ⟨l', o', r', s', hfirst.of_right hlnone, eval_of_right_error hl hr⟩
    · exact Or.inr ⟨l', o', r', s', hfirst.of_left, eval_of_left_error hl⟩

end Expr

/-- Without a division, evaluation gives the exact value if that of every node fits into a word.
Otherwise it fails with an overflow, blamed on the first node in post-order that does not fit. -/
theorem eval_exact_or_overflow {e : Expr} (h : e.NoDivision) :
    (∀ value, e.eval = .ok value ↔
      (∀ node ∈ e.nodes, node.Fits) ∧ ∃ w, value = .integer w ∧ w.toInt = e.exact) ∧
    (¬ (∀ node ∈ e.nodes, node.Fits) →
      ∃ left operator right span fault,
        e.First (fun node => ¬ node.Fits) (.binary left operator right span) ∧
          e.eval = .error fault ∧
          fault.diagnostic = .runtime span
            ("Integer overflow in '" ++ operator.symbol.toString ++ "'")) := by
  rcases Expr.eval_cases h with ⟨w, heval, hexact, hfits⟩ | ⟨l, operator, r, span, hfirst, heval⟩
  · refine ⟨fun value => ⟨?_, ?_⟩, fun hmisfit => absurd hfits hmisfit⟩
    · intro hvalue
      obtain rfl := Except.ok.inj (heval.symm.trans hvalue)
      exact ⟨hfits, w, rfl, hexact⟩
    · rintro ⟨-, w', rfl, hexact'⟩
      obtain rfl : w = w' := Word.ext (hexact.trans hexact'.symm)
      exact heval
  · obtain ⟨hmem, hmisfit⟩ := hfirst.mem_nodes
    refine ⟨fun value => ⟨?_, ?_⟩, fun _ => ⟨l, operator, r, span, _, hfirst, heval, rfl⟩⟩
    · intro hvalue
      cases heval.symm.trans hvalue
    · rintro ⟨hfits, -⟩
      exact absurd (hfits _ hmem) hmisfit

/-- The exact value is zero, but both products on the way are out of range: the first is blamed. -/
theorem eval_exact_or_overflow_cancelling_products :
    ∃ product difference : Expr, product.span = ⟨0, 21⟩ ∧
      difference = product.join .subtract (product.withSpan ⟨22, 43⟩) ∧
      difference.NoDivision ∧ difference.exact = 0 ∧
      ¬ (∀ node ∈ difference.nodes, node.Fits) ∧
      difference.eval = .error ⟨.overflow .multiply, ⟨0, 21⟩⟩ ∧
      ∃ left operator right span fault,
        difference.First (fun node => ¬ node.Fits) (.binary left operator right span) ∧
          difference.eval = .error fault ∧
          fault.diagnostic = .runtime span
            ("Integer overflow in '" ++ operator.symbol.toString ++ "'") := by
  let largest : Expr := .number ⟨9223372036854775807, by decide, by decide⟩ ⟨0, 19⟩
  let two : Expr := .number ⟨2, by decide, by decide⟩ ⟨20, 21⟩
  let product : Expr := .join largest .multiply two
  let difference : Expr := product.join .subtract (product.withSpan ⟨22, 43⟩)
  have hdivision : difference.NoDivision := by
    simp [difference, product, largest, two, Expr.join, Expr.withSpan, Expr.NoDivision, Expr.nodes]
  have hmisfit : ¬ (∀ node ∈ difference.nodes, node.Fits) := by
    intro hfits
    have hproduct : product.Fits :=
      hfits product (by simp [difference, product, Expr.join, Expr.nodes])
    exact absurd hproduct.2 (by decide)
  exact ⟨product, difference, rfl, rfl, hdivision, rfl, hmisfit, rfl,
    (eval_exact_or_overflow hdivision).2 hmisfit⟩

end Calculator
