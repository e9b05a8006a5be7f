import Calculator.Proofs.Evaluation.Overflow

/-!
# The first node that fails

Evaluation takes the nodes of an expression in post-order. A node fails by itself if its operands have
values and its operator gives none for them (`Expr.FailsLocally`): a division by zero, or a sum,
difference or product of two words that is no word. An expression has no value exactly if one of its
nodes fails so, and then the first of these is blamed (`eval_first_failure`).

What an operator does with two values is said once, in `Operator.apply_cases`. A value is a whole number
as long as there is no division below it, and then never again: a double-precision number as an operand
makes the result one, so behind a division nothing overflows.
-/

namespace Calculator

/-- The values that are zero: the whole number, and the double-precision numbers of either sign. -/
inductive Value.Zero : Value → Prop where
  | integer {word : Word} (hzero : word.toInt = 0) : Zero (.integer word)
  | double (negative : Bool) : Zero (.double (.zero negative))

theorem Value.isZero_iff_zero {value : Value} : value.isZero = true ↔ value.Zero := by
  cases value with
  | integer word =>
    simp only [isZero, decide_eq_true_eq]
    exact ⟨.integer, fun h => by cases h; assumption⟩
  | double number =>
    cases number with
    | nan => exact ⟨nofun, nofun⟩
    | infinite negative => exact ⟨nofun, nofun⟩
    | finite negative rank =>
      simp only [isZero, Binary64.isZero, decide_eq_true_eq]
      constructor
      · intro hrank
        obtain rfl : rank = ⟨0, by decide⟩ := Fin.ext hrank
        exact .double negative
      · intro h
        cases h
        rfl

/-! ## One operator -/

/-- The values that an operator has no value for. -/
inductive Operator.FailsOn : Operator → Value → Value → Prop where
  | division {l r : Value} (hzero : r.Zero) : FailsOn .divide l r
  | overflow {operator : Operator} {l r : Word} (hoperator : operator ≠ .divide)
      (hout : ¬ Word.Fits (operator.exact l.toInt r.toInt)) :
      FailsOn operator (.integer l) (.integer r)

/-- Why an operator fails if it does. -/
def Operator.failure : Operator → Cause
  | .divide => .divisionByZero
  | operator => .overflow operator

theorem Operator.failure_of_ne {operator : Operator} (h : operator ≠ .divide) :
    operator.failure = .overflow operator := by
  cases operator with
  | divide => exact absurd rfl h
  | _ => rfl

/-- A value that is a whole number. -/
def Value.IsInteger (value : Value) : Prop := ∃ word, value = .integer word

theorem Value.not_isInteger_double (number : Binary64) : ¬ (Value.double number).IsInteger := by
  rintro ⟨word, h⟩
  cases h

/-- Two words have no value for an operator if the exact one is no word, and otherwise the exact one. -/
theorem Operator.apply_words {operator : Operator} (h : operator ≠ .divide) (l r : Word) :
    (operator.FailsOn (.integer l) (.integer r) ∧
        operator.apply (.integer l) (.integer r) = .error operator.failure) ∨
      ¬ operator.FailsOn (.integer l) (.integer r) ∧
        ∃ word, operator.apply (.integer l) (.integer r) = .ok (.integer word) := by
  rw [apply_integer h, failure_of_ne h]
  cases hword : Word.ofInt? (operator.exact l.toInt r.toInt) with
  | none => exact Or.inl ⟨.overflow h (Word.ofInt?_eq_none_iff_not_fits.mp hword), rfl⟩
  | some word =>
    refine Or.inr ⟨fun hfails => ?_, word, rfl⟩
    cases hfails with
    | division => exact h rfl
    | overflow _ hout =>
      rw [Word.ofInt?_eq_none_iff_not_fits.mpr hout] at hword
      cases hword

/-- With a double-precision number among its operands, an operator that does not divide has one as its
value. -/
theorem Operator.apply_double {operator : Operator} (h : operator ≠ .divide) {l r : Value}
    (hdouble : ¬ (l.IsInteger ∧ r.IsInteger)) :
    ¬ operator.FailsOn l r ∧ ∃ number, operator.apply l r = .ok (.double number) := by
  have hfails : ¬ operator.FailsOn l r := by
    intro hfails
    cases hfails with
    | division => exact h rfl
    | overflow => exact hdouble ⟨⟨_, rfl⟩, ⟨_, rfl⟩⟩
  refine ⟨hfails, ?_⟩
  cases l with
  | integer l =>
    cases r with
    | integer r => exact absurd ⟨⟨l, rfl⟩, ⟨r, rfl⟩⟩ hdouble
    | double r =>
      cases operator with
      | divide => exact absurd rfl h
      | _ => exact ⟨_, rfl⟩
  | double l =>
    cases operator with
    | divide => exact absurd rfl h
    | _ => exact ⟨_, rfl⟩

/-- A quotient is a double-precision number, unless the divisor is zero. -/
theorem Operator.apply_divide (l r : Value) :
    (Operator.divide.FailsOn l r ∧ Operator.divide.apply l r = .error .divisionByZero) ∨
      ¬ Operator.divide.FailsOn l r ∧ ∃ number, Operator.divide.apply l r = .ok (.double number) := by
  cases hzero : r.isZero with
  | true =>
    refine Or.inl ⟨.division (Value.isZero_iff_zero.mp hzero), ?_⟩
    simp [apply, hzero]
  | false =>
    refine Or.inr ⟨fun hfails => ?_, ?_⟩
    · cases hfails with
      | division h =>
        rw [Value.isZero_iff_zero.mpr h] at hzero
        cases hzero
      | overflow h => exact h rfl
    · cases l <;> cases r <;> simp [apply, hzero]

/-- An operator fails on two values, or it gives a value. This is a whole number if the operator does
not divide and both operands are whole numbers. -/
theorem Operator.apply_cases (operator : Operator) (l r : Value) :
    (operator.FailsOn l r ∧ operator.apply l r = .error operator.failure) ∨
      ¬ operator.FailsOn l r ∧ ∃ value, operator.apply l r = .ok value ∧
        (value.IsInteger ↔ operator ≠ .divide ∧ l.IsInteger ∧ r.IsInteger) := by
  by_cases hdivide : operator = .divide
  · subst hdivide
    rcases apply_divide l r with hfails | ⟨hnot, number, happly⟩
    · exact Or.inl hfails
    · refine Or.inr ⟨hnot, _, happly, ?_⟩
      simp [Value.not_isInteger_double]
  · by_cases hwords : l.IsInteger ∧ r.IsInteger
    · obtain ⟨⟨l, rfl⟩, ⟨r, rfl⟩⟩ := hwords
      rcases apply_words hdivide l r with hfails | ⟨hnot, word, happly⟩
      · exact Or.inl hfails
      · exact Or.inr ⟨hnot, _, happly, fun _ => ⟨hdivide, ⟨l, rfl⟩, ⟨r, rfl⟩⟩, fun _ => ⟨word, rfl⟩⟩
    · obtain ⟨hnot, number, happly⟩ := apply_double hdivide hwords
      refine Or.inr ⟨hnot, _, happly, ?_⟩
      simp [Value.not_isInteger_double, hwords]

/-! ## Whole expressions -/

namespace Expr

/-- A node that fails by itself: its operands have values, and its operator has none for them. -/
inductive FailsLocally : Expr → Prop where
  | intro {left right : Expr} {operator : Operator} {span : Span} {l r : Value}
      (hleft : left.eval = .ok l) (hright : right.eval = .ok r) (hfails : operator.FailsOn l r) :
      FailsLocally (.binary left operator right span)

/-- An expression has a value and no node that fails, or the first node that fails is blamed. -/
theorem eval_value_or_failure (e : Expr) :
    (∃ value, e.eval = .ok value ∧ (∀ node ∈ e.nodes, ¬ node.FailsLocally) ∧
        (value.IsInteger ↔ e.NoDivision)) ∨
      ∃ left operator right span, First FailsLocally e (.binary left operator right span) ∧
        e.eval = .error ⟨operator.failure, span⟩ := by
  induction e with
  | number value span =>
    refine Or.inl ⟨.integer value, rfl, ?_, fun _ => ?_, fun _ => ⟨value, rfl⟩⟩
    · rw [nodes, List.forall_mem_singleton]
      intro hfails
      cases hfails
    · simp [NoDivision, nodes]
  | binary left operator right span ihl ihr =>
    rcases ihl with ⟨l, hl, hlnone, hlinteger⟩ | ⟨l', o', r', s', hfirst, hl⟩
    · rcases ihr with ⟨r, hr, hrnone, hrinteger⟩ | ⟨l', o', r', s', hfirst, hr⟩
      · have hstep : (binary left operator right span).eval = _ := eval_of_ok hl hr
        rcases operator.apply_cases l r with ⟨hfails, happly⟩ | ⟨hnot, value, happly, hinteger⟩
        · rw [happly] at hstep
          exact Or.inr ⟨left, operator, right, span, .of_root hlnone hrnone (.intro hl hr hfails), hstep⟩
        · rw [happly] at hstep
          refine Or.inl ⟨value, hstep, forall_nodes_binary.mpr ⟨hlnone, hrnone, ?_⟩, ?_⟩
          · rintro ⟨hl', hr', hfails⟩
            obtain rfl := Except.ok.inj (hl.symm.trans hl')
            obtain rfl := Except.ok.inj (hr.symm.trans hr')
            exact hnot hfails
          · rw [hinteger, noDivision_binary, hlinteger, hrinteger, and_comm, and_assoc]
      · exact Or.inr ⟨l', o', r', s', hfirst.of_right hlnone, eval_of_right_error hl hr⟩
    · exact Or.inr ⟨l', o', r', s', hfirst.of_left, eval_of_left_error hl⟩

/-- The fault of an expression is that of the first node that fails. -/
theorem eval_eq_error_iff {e : Expr} {fault : Fault} :
    e.eval = .error fault ↔
      ∃ left operator right span, First FailsLocally e (.binary left operator right span) ∧
        fault = ⟨operator.failure, span⟩ := by
  constructor
  · intro h
    rcases e.eval_value_or_failure with ⟨value, hvalue, -⟩ | ⟨l, o, r, s, hfirst, hfault⟩
    · cases h.symm.trans hvalue
    · exact ⟨l, o, r, s, hfirst, Except.error.inj (h.symm.trans hfault)⟩
  · rintro ⟨l, o, r, s, hfirst, rfl⟩
    obtain ⟨hmem, hfails⟩ := hfirst.mem_nodes
    rcases e.eval_value_or_failure with ⟨value, -, hnone, -⟩ | ⟨l', o', r', s', hfirst', hfault⟩
    · exact absurd hfails (hnone _ hmem)
    · injection hfirst.unique hfirst' with _ hoperator _ hspan
      rw [hfault, hoperator, hspan]

theorem exists_eval_eq_error_iff {e : Expr} :
    (∃ fault, e.eval = .error fault) ↔ ∃ node ∈ e.nodes, node.FailsLocally := by
  rcases e.eval_value_or_failure with ⟨value, hvalue, hnone, -⟩ | ⟨l, o, r, s, hfirst, hfault⟩
  · constructor
    · rintro ⟨fault, hfault⟩
      cases hvalue.symm.trans hfault
    · rintro ⟨node, hnode, hfails⟩
      exact absurd hfails (hnone node hnode)
  · exact ⟨fun _ => ⟨_, hfirst.mem_nodes⟩, fun _ => ⟨_, hfault⟩⟩

/-- A value is a whole number if there is no division in the expression. -/
theorem isInteger_iff_of_eval {e : Expr} {value : Value} (h : e.eval = .ok value) :
    value.IsInteger ↔ e.NoDivision := by
  rcases e.eval_value_or_failure with ⟨value', hvalue, -, hinteger⟩ | ⟨l, o, r, s, -, hfault⟩
  · obtain rfl := Except.ok.inj (h.symm.trans hvalue)
    exact hinteger
  · cases h.symm.trans hfault

end Expr

/-- An expression has no value exactly if one of its nodes fails locally. Then the first such node in
post-order is blamed: for a division by zero if it divides, otherwise for an overflow. A value is a whole
number exactly if there is no division in the expression, and otherwise a double-precision number. -/
theorem eval_first_failure (e : Expr) :
    ((∃ fault, e.eval = .error fault) ↔ ∃ node ∈ e.nodes, node.FailsLocally) ∧
    (∀ fault, e.eval = .error fault ↔
      ∃ left operator right span, e.First Expr.FailsLocally (.binary left operator right span) ∧
        fault = ⟨operator.failure, span⟩ ∧
        fault.diagnostic =
          if operator = .divide then
            ⟨.divisionByZero, span, "Division by zero",
              some "The right-hand side of '/' evaluated to 0."⟩
          else .runtime span ("Integer overflow in '" ++ operator.symbol.toString ++ "'")) ∧
    ((∃ word, e.eval = .ok (.integer word)) ↔ (∃ value, e.eval = .ok value) ∧ e.NoDivision) ∧
    ((∃ number, e.eval = .ok (.double number)) ↔ (∃ value, e.eval = .ok value) ∧ ¬ e.NoDivision) := by
  refine ⟨Expr.exists_eval_eq_error_iff, fun fault => ?_, ?_, ?_⟩
  · rw [Expr.eval_eq_error_iff]
    constructor
    · rintro ⟨l, operator, r, span, hfirst, rfl⟩
      refine ⟨l, operator, r, span, hfirst, rfl, ?_⟩
      cases operator <;> rfl
    · rintro ⟨l, operator, r, span, hfirst, hfault, -⟩
      exact ⟨l, operator, r, span, hfirst, hfault⟩
  · constructor
    · rintro ⟨word, hword⟩
      exact ⟨⟨_, hword⟩, (Expr.isInteger_iff_of_eval hword).mp ⟨word, rfl⟩⟩
    · rintro ⟨⟨value, hvalue⟩, hdivision⟩
      obtain ⟨word, rfl⟩ := (Expr.isInteger_iff_of_eval hvalue).mpr hdivision
      exact ⟨word, hvalue⟩
  · constructor
    · rintro ⟨number, hnumber⟩
      refine ⟨⟨_, hnumber⟩, fun hdivision => ?_⟩
      exact Value.not_isInteger_double number ((Expr.isInteger_iff_of_eval hnumber).mpr hdivision)
    · rintro ⟨⟨value, hvalue⟩, hdivision⟩
      cases value with
      | integer word => exact absurd ((Expr.isInteger_iff_of_eval hvalue).mp ⟨word, rfl⟩) hdivision
      | double number => exact ⟨number, hvalue⟩

end Calculator
