import Calculator.Proofs.Evaluation.Overflow

/-!
# Evaluation under guard

Where a program does not check something, it takes it for granted: that a divisor is not zero, or that a
token is still what has been looked at. Under guard it checks all of this, and breaks off with a `Breach`
where a check fails. If it ends under guard as it ends without, then all that it takes for granted holds.

Here evaluation is put under guard. Words are divided by operations that refuse what is no word, and
`quotientOfWords` has a branch for that. But for a divisor of zero the branch is taken only for the least
word divided by minus one (`Word.divMod?_eq_none_iff`). A divisor of zero is a breach, and evaluation
comes to none, whatever the expression (`eval_eq`).
-/

namespace Calculator

/-! ## Breaches -/

/-- What would be wrong with the program and not with a text. -/
inductive Breach where
  /-- A text is cut within a character. -/
  | slice
  /-- No operator is taken where one has been looked at. -/
  | noOperator
  /-- A token is taken that is not what has been looked at, or a number that has no value. It is
  refused in these words. -/
  | refused (diagnostic : Diagnostic)
  /-- A group ends and none is counted as open. -/
  | noOpenGroup
  /-- A whole number is divided by zero. -/
  | zeroDivisor
  deriving DecidableEq

/-- Why a program under guard breaks off. -/
inductive Stop where
  | fault (fault : Fault)
  | breach (breach : Breach)
  deriving DecidableEq

/-! ## Quotients of words -/

namespace Word

/-- The quotient without its part behind the point, if there is one and it fits. -/
def div? (l r : Word) : Option Word := if r.toInt = 0 then none else ofInt? (l.toInt.tdiv r.toInt)

/-- What the quotient leaves, if there is a quotient and it fits. -/
def mod? (l r : Word) : Option Word := (l.div? r).bind fun _ => ofInt? (l.toInt.tmod r.toInt)

/-- Both parts of a quotient. -/
def divMod? (l r : Word) : Option (Word × Word) := do return (← l.div? r, ← l.mod? r)

section

variable {l r : Word}

/-- Of all quotients of words only one does not fit. -/
theorem not_fits_tdiv_iff (hr : r.toInt ≠ 0) :
    ¬ Fits (l.toInt.tdiv r.toInt) ↔ l.toInt = -9223372036854775808 ∧ r.toInt = -1 := by
  have hmin := l.min_le
  have hmax := l.le_max
  have habs : (l.toInt.tdiv r.toInt).natAbs = l.toInt.natAbs / r.toInt.natAbs := Int.natAbs_tdiv ..
  rw [Fits]
  by_cases hone : r.toInt = 1 ∨ r.toInt = -1
  · rcases hone with hone | hone <;> rw [hone]
    · rw [Int.tdiv_one]
      omega
    · rw [Int.tdiv_neg, Int.tdiv_one]
      omega
  · -- any other divisor halves the magnitude at least
    have hhalf : l.toInt.natAbs / r.toInt.natAbs ≤ l.toInt.natAbs / 2 :=
      Nat.div_le_div_left (by omega) (by omega)
    omega

/-- What a quotient leaves is smaller than the divisor, so it fits. -/
theorem fits_tmod (hr : r.toInt ≠ 0) : Fits (l.toInt.tmod r.toInt) := by
  have hmin := r.min_le
  have hmax := r.le_max
  have habs : (l.toInt.tmod r.toInt).natAbs = l.toInt.natAbs % r.toInt.natAbs := Int.natAbs_tmod ..
  have hlt : l.toInt.natAbs % r.toInt.natAbs < r.toInt.natAbs := Nat.mod_lt _ (by omega)
  rw [Fits]
  omega

theorem divMod?_eq_some_iff (hr : r.toInt ≠ 0) {whole rest : Word} :
    l.divMod? r = some (whole, rest) ↔
      whole.toInt = l.toInt.tdiv r.toInt ∧ rest.toInt = l.toInt.tmod r.toInt := by
  rw [divMod?, mod?, div?, if_neg hr, ← ofInt?_eq_some_iff, ← ofInt?_eq_some_iff]
  cases ofInt? (l.toInt.tdiv r.toInt) <;> cases ofInt? (l.toInt.tmod r.toInt) <;> simp

/-- There is one quotient that does not fit. -/
theorem divMod?_eq_none_iff (hr : r.toInt ≠ 0) :
    l.divMod? r = none ↔ l.toInt = -9223372036854775808 ∧ r.toInt = -1 := by
  obtain ⟨rest, hrest⟩ : ∃ rest, ofInt? (l.toInt.tmod r.toInt) = some rest := by
    rw [← Option.ne_none_iff_exists', Ne, ofInt?_eq_none_iff_not_fits]
    exact fun hnone => hnone (fits_tmod hr)
  rw [divMod?, mod?, div?, if_neg hr, hrest, ← not_fits_tdiv_iff hr, ← ofInt?_eq_none_iff_not_fits]
  cases ofInt? (l.toInt.tdiv r.toInt) <;> simp

end

end Word

namespace Guarded

/-- The quotient of two words, from both its parts if they fit. -/
def quotientOfWords (l r : Word) : Binary64 :=
  match l.divMod? r with
  | none => (Binary64.ofInt l.toInt).neg
  | some (whole, rest) =>
    if rest.toInt = 0 then .ofInt whole.toInt
    else if l.toInt.natAbs ≤ exactLimit ∧ r.toInt.natAbs ≤ exactLimit then
      (Binary64.ofInt l.toInt).div (.ofInt r.toInt)
    else (Binary64.ofInt whole.toInt).add ((Binary64.ofInt rest.toInt).div (.ofInt r.toInt))

/-- The quotient that does not fit is the least word without its sign. -/
theorem quotientOfWords_eq {l r : Word} (hr : r.toInt ≠ 0) :
    quotientOfWords l r = quotient l.toInt r.toInt := by
  unfold quotientOfWords
  split
  · next hnone =>
    obtain ⟨hl, hr'⟩ := (Word.divMod?_eq_none_iff hr).mp hnone
    rw [hl, hr']
    decide +kernel
  · next whole rest hsome =>
    obtain ⟨hwhole, hrest⟩ := (Word.divMod?_eq_some_iff hr).mp hsome
    rw [hwhole, hrest]
    rfl

/-- What an operator makes of two values. Whole numbers are divided only by what is not zero. -/
def apply (span : Span) : Operator → Value → Value → Except Stop Value
  | .divide, l, r =>
    if r.isZero then .error (.fault ⟨.divisionByZero, span⟩)
    else
      match l, r with
      | .integer l, .integer r =>
        if r.toInt = 0 then .error (.breach .zeroDivisor) else .ok (.double (quotientOfWords l r))
      | l, r => .ok (.double (l.toBinary64.div r.toBinary64))
  | operator, l, r => (operator.apply l r).mapError fun cause => .fault ⟨cause, span⟩

/-- The value of an expression, or what is wrong on the way. -/
def eval : Expr → Except Stop Value
  | .number value _ => .ok (.integer value)
  | .binary left operator right span => do
    let l ← eval left
    let r ← eval right
    apply span operator l r

theorem apply_eq (span : Span) (operator : Operator) (l r : Value) :
    apply span operator l r = (operator.apply l r).mapError fun cause => .fault ⟨cause, span⟩ := by
  cases operator with
  | add | subtract | multiply => rfl
  | divide =>
    unfold apply Operator.apply
    dsimp only
    by_cases hzero : r.isZero = true
    · rw [if_pos hzero, if_pos hzero]
      rfl
    · rw [if_neg hzero, if_neg hzero]
      cases l with
      | double l => rfl
      | integer l =>
        cases r with
        | double r => rfl
        | integer r =>
          have hr : r.toInt ≠ 0 := by simpa [Value.isZero] using hzero
          dsimp only
          rw [if_neg hr, quotientOfWords_eq hr]
          rfl

/-- Evaluation comes to no breach. -/
theorem eval_eq (e : Expr) : eval e = e.eval.mapError .fault := by
  induction e with
  | number value span => rfl
  | binary left operator right span ihl ihr =>
    rw [eval, ihl, ihr]
    cases hl : left.eval with
    | error fault => rw [Expr.eval_of_left_error hl]; rfl
    | ok l =>
      cases hr : right.eval with
      | error fault => rw [Expr.eval_of_right_error hl hr]; rfl
      | ok r =>
        rw [Expr.eval_of_ok hl hr]
        show apply span operator l r = _
        rw [apply_eq]
        cases operator.apply l r <;> rfl

end Guarded

end Calculator
