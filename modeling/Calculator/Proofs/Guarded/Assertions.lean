import Calculator.Proofs.Evaluation.FirstFailure
import Calculator.Proofs.Guarded.Reader
import Calculator.Proofs.Parse.DepthBlame

/-!
# Nothing is taken for granted in vain

The scanner of a text, a reader that is made of it, and the evaluation of what it reads never come to a
breach (`assertions_hold`). To prove it they are run under guard, one call after the other, also behind
calls that have failed, and what they give is compared with what is given without guard.

One call keeps a reader sound (`Guarded.ask_keeps`). So does a run of calls, and its answers are the same
under guard (`Guarded.inTurn_guarded`). Three messages are written for tokens that are not what has been
looked at; no fault has one of them (`Cause.message_not_mem_refusals`).
-/

namespace Calculator

/-! ## Messages -/

/-- The messages for a token that is not what has been looked at, and for a number without a value. -/
def refusals : List String := ["Expected integer", "Expected '('", "Invalid integer"]

theorem Cause.message_not_mem_refusals {cause : Cause} (h : cause ≠ .numberWithoutValue) :
    cause.message ∉ refusals := by
  have hfront : ∀ {a b : String}, (∀ c ∈ refusals, ¬ a.toList <+: c.toList) → a ++ b ∉ refusals :=
    fun hne hmem => Text.append_ne (hne _ hmem) rfl
  have haround : ∀ {a b c : String}, (∀ d ∈ refusals, ¬ a.toList <+: d.toList) →
      a ++ b ++ c ∉ refusals := by
    intro a b c hne
    rw [String.append_assoc]
    exact hfront hne
  cases cause with
  | numberWithoutValue => exact absurd rfl h
  | emptyGroup | unexpectedEnd | unclosedGroup | divisionByZero => decide +kernel
  | tooDeep limit =>
    show "Expression nested too deeply" ∉ refusals
    decide +kernel
  | numberTooLarge _ => exact hfront (by decide +kernel)
  | unexpectedCharacter _ | missingOperand _ | noExpression _ _ | trailingInput _ _ | overflow _ =>
    exact haround (by decide +kernel)

/-! ## Calls -/

/-- What a reader can be asked for: an expression, one with which the input ends, or the value of such a
one. -/
inductive Ask where
  | expression
  | complete
  | value
  deriving DecidableEq, Repr

/-- What a reader gives. -/
inductive Reply where
  | expression (e : Expr)
  | value (value : Value)
  deriving DecidableEq

/-- Reads an expression with which the input has to end, and evaluates it. -/
def Reader.value : Rule Value := do
  match (← complete).eval with
  | .ok value => return value
  | .error fault => throw fault

/-- The same under guard. -/
def Guarded.value (source : List Char) : GuardedRule Value := do
  match Guarded.eval (← complete source) with
  | .ok value => return value
  | .error stop => throw stop

namespace Ask

/-- The rule that a reader follows. -/
def rule : Ask → Rule Reply
  | .expression => do return .expression (← Reader.expression)
  | .complete => do return .expression (← Reader.complete)
  | .value => do return .value (← Reader.value)

/-- The rule that a reader follows under guard. -/
def guarded (source : List Char) : Ask → GuardedRule Reply
  | .expression => do return .expression (← Guarded.expression source)
  | .complete => do return .expression (← Guarded.complete source)
  | .value => do return .value (← Guarded.value source)

end Ask

/-- What a rule gives, with the state that it leaves, whether it gives a result or fails. -/
def outcome {ε σ α : Type} : EStateM.Result ε σ α → Except ε α × σ
  | .ok a s => (.ok a, s)
  | .error e s => (.error e, s)

/-- What rules give one after the other. Each starts in the state that the one before it leaves. -/
def inTurn {ε σ α : Type} : List (EStateM ε σ α) → σ → List (Except ε α × σ)
  | [], _ => []
  | rule :: rules, s => outcome (rule s) :: inTurn rules (outcome (rule s)).2

/-! ## Runs -/

namespace Guarded

section

variable {source : List Char} {r : Reader}

theorem value_keeps (h : Sound source r) :
    Keeps source (value source) Reader.value r fun _ s => Sound source s := by
  refine Keeps.bind (complete_safe source r h) ?_
  rintro e s ⟨hs, -⟩
  rw [eval_eq]
  cases heval : e.eval with
  | ok value => exact keeps_pure hs
  | error fault =>
    obtain ⟨-, operator, -, -, -, rfl⟩ := Expr.eval_eq_error_iff.mp heval
    refine ⟨rfl, hs, ?_⟩
    cases operator <;> simp [Operator.failure]

/-- One call. -/
theorem ask_keeps (ask : Ask) (h : Sound source r) :
    Keeps source (ask.guarded source) ask.rule r fun _ s => Sound source s := by
  cases ask with
  | expression => exact Keeps.bind (expression_safe source r h) fun e s hs => keeps_pure hs.1
  | complete => exact Keeps.bind (complete_safe source r h) fun e s hs => keeps_pure hs.1
  | value => exact Keeps.bind (value_keeps h) fun value s hs => keeps_pure hs

theorem Keeps.outcome_eq {α : Type} {guarded : GuardedRule α} {rule : Rule α}
    (h : Keeps source guarded rule r fun _ s => Sound source s) :
    outcome (guarded r) = (outcome (rule r)).map (Except.mapError .fault) id ∧
      Sound source (outcome (rule r)).2 ∧
      ∀ fault, (outcome (rule r)).1 = .error fault → fault.cause ≠ .numberWithoutValue := by
  unfold Keeps at h
  split at h
  · next a s hrule =>
    rw [h.1, hrule]
    exact ⟨rfl, h.2, fun fault hfault => by cases hfault⟩
  · next fault s hrule =>
    rw [h.1, hrule]
    refine ⟨rfl, h.2.1, fun other hother => ?_⟩
    obtain rfl := Except.error.inj hother
    exact h.2.2

/-- Any number of calls, each behind the one before it. -/
theorem inTurn_guarded (asks : List Ask) (h : Sound source r) :
    inTurn (asks.map (Ask.guarded source)) r =
        (inTurn (asks.map Ask.rule) r).map (Prod.map (Except.mapError .fault) id) ∧
      ∀ answer ∈ inTurn (asks.map Ask.rule) r, Sound source answer.2 ∧
        ∀ fault, answer.1 = .error fault → fault.cause ≠ .numberWithoutValue := by
  induction asks generalizing r with
  | nil => exact ⟨rfl, by simp [inTurn]⟩
  | cons ask asks ih =>
    obtain ⟨hanswer, hsound, hcause⟩ := (ask_keeps ask h).outcome_eq
    obtain ⟨hothers, hall⟩ := ih hsound
    have hstate : (outcome (ask.guarded source r)).2 = (outcome (ask.rule r)).2 :=
      congrArg Prod.snd hanswer
    simp only [List.map_cons, inTurn, List.forall_mem_cons, hstate]
    exact ⟨by rw [hanswer, hothers], ⟨hsound, hcause⟩, hall⟩

/-- A reader of a scanner is made alike under guard and without. -/
theorem ofScanner_eq {s : Scanner} (h : s.StandsIn source) :
    ofScanner source s = (Reader.ofScanner s).mapError .fault := by
  rw [ofScanner, Reader.ofScanner, h.scanIn_eq]
  rcases s.scan with ⟨_ | _, _⟩ <;> rfl

theorem cause_ne_of_ofScanner {s : Scanner} {fault : Fault}
    (hfault : Reader.ofScanner s = .error fault) : fault.cause ≠ .numberWithoutValue := by
  unfold Reader.ofScanner at hfault
  split at hfault
  · cases hfault
  · next hscan =>
    obtain rfl := Except.error.inj hfault
    exact cause_ne_of_scan hscan

theorem sound_of_ofScanner {s : Scanner} (h : s.StandsIn source)
    (hfirst : Reader.ofScanner s = .ok r) : Sound source r := by
  have hbehind := h.scan
  unfold Reader.ofScanner at hfirst
  split at hfirst
  · next token behind hscan =>
    obtain rfl := Except.ok.inj hfirst
    rw [hscan] at hbehind
    exact ⟨hbehind, fun hkind => Scanner.scan_value_isSome hscan hkind⟩
  · cases hfirst

end

end Guarded

/-- Nothing that is taken for granted fails. Whatever a scanner has been asked for, each slice that it
has taken exists. A reader that is made of the scanner gives the same under guard and without, however
often it is asked and whatever has failed before. So here, too, each slice exists, a token that is taken
is what has been looked at, no group is left that is not open, and no whole number is divided by zero. A
number that a reader looks at has a value, and no fault speaks of a token that is not what has been
looked at. Any other expression is evaluated without a breach as well. Of all quotients of words, only
that of the least one and minus one takes the branch for what is no word. And the slices with which a
span is counted in characters exist. -/
theorem assertions_hold (source : List Char) (requests : List Scanner.Pull) :
    let s := (Scanner.ofSource source).afterPulls requests
    (Scanner.ofSource source).pullsIn source requests =
      some ((Scanner.ofSource source).answers requests, s) ∧
    Guarded.ofScanner source s = (Reader.ofScanner s).mapError .fault ∧
    (∀ fault, Reader.ofScanner s = .error fault → fault.cause.message ∉ refusals) ∧
    (∀ first, Reader.ofScanner s = .ok first →
      (first.current.kind = .integer → first.current.value.isSome) ∧
      ∀ asks : List Ask, inTurn (asks.map (Ask.guarded source)) first =
          (inTurn (asks.map Ask.rule) first).map (Prod.map (Except.mapError .fault) id) ∧
        ∀ answer r, (answer, r) ∈ inTurn (asks.map Ask.rule) first →
          (r.current.kind = .integer → r.current.value.isSome) ∧
          ∀ fault, answer = .error fault → fault.cause.message ∉ refusals) ∧
    (∀ e, Guarded.eval e = e.eval.mapError .fault) ∧
    (∀ l r : Word, r.toInt ≠ 0 →
      (l.divMod? r = none ↔ l.toInt = -9223372036854775808 ∧ r.toInt = -1)) ∧
    ∀ span, Span.chars? source span = some (span.chars source) := by
  intro s
  have hstart : (Scanner.ofSource source).StandsIn source := ⟨[], rfl, rfl⟩
  obtain ⟨hpulls, hstands⟩ := hstart.pullsIn_eq requests
  refine ⟨hpulls, Guarded.ofScanner_eq hstands, fun fault hfault =>
    Cause.message_not_mem_refusals (Guarded.cause_ne_of_ofScanner hfault), fun first hfirst => ?_,
    Guarded.eval_eq, fun l r => Word.divMod?_eq_none_iff, Span.chars?_eq source⟩
  have hsound := Guarded.sound_of_ofScanner hstands hfirst
  refine ⟨hsound.value_isSome, fun asks => ?_⟩
  obtain ⟨hsame, hall⟩ := Guarded.inTurn_guarded asks hsound
  refine ⟨hsame, fun answer r hmem => ?_⟩
  obtain ⟨hr, hcause⟩ := hall _ hmem
  exact ⟨hr.value_isSome, fun fault hfault => Cause.message_not_mem_refusals (hcause fault hfault)⟩

/-- A wide blank stands in front. The first call leaves a group unfinished, the second evaluates what
follows in it, and the third finds the end. None of them comes to a breach. -/
theorem assertions_hold_behind_faults :
    let source := "\u3000(1 2/0".toList
    let first : Reader := ⟨⟨4, "1 2/0".toList, false⟩, .mark .leftParen '(' 3, 0, 0, 0⟩
    let asks : List Ask := [.complete, .value, .expression]
    Reader.ofScanner (.ofSource source) = .ok first ∧
    (inTurn (asks.map (Ask.guarded source)) first).map Prod.fst =
      [.error (.fault ⟨.unclosedGroup, ⟨6, 7⟩⟩), .error (.fault ⟨.divisionByZero, ⟨6, 9⟩⟩),
        .error (.fault ⟨.unexpectedEnd, ⟨9, 10⟩⟩)] ∧
    (∀ fault, .error fault ∈ (inTurn (asks.map Ask.rule) first).map Prod.fst →
      fault.cause.message ∉ refusals) ∧
    Word.divMod? ⟨-9223372036854775808, by decide, by decide⟩ ⟨-1, by decide, by decide⟩ = none := by
  intro source first asks
  have hfirst : Reader.ofScanner (.ofSource source) = .ok first := by rfl
  have hfaults : (inTurn (asks.map Ask.rule) first).map Prod.fst =
      [.error ⟨.unclosedGroup, ⟨6, 7⟩⟩, .error ⟨.divisionByZero, ⟨6, 9⟩⟩,
        .error ⟨.unexpectedEnd, ⟨9, 10⟩⟩] := by decide +kernel
  obtain ⟨-, -, -, hreaders, -, hquotients, -⟩ := assertions_hold source []
  obtain ⟨hsame, hall⟩ := (hreaders first hfirst).2 asks
  refine ⟨hfirst, ?_, fun fault hmem => ?_, (hquotients _ _ (by decide)).mpr ⟨rfl, rfl⟩⟩
  · have hanswers := congrArg (List.map (Except.mapError Stop.fault)) hfaults
    rw [hsame, List.map_map]
    rw [List.map_map] at hanswers
    exact hanswers
  · obtain ⟨⟨answer, r⟩, hanswer, rfl⟩ := List.mem_map.mp hmem
    exact (hall _ r hanswer).2 fault rfl

end Calculator
