import Mathlib.Logic.Function.Iterate
import Calculator.Proofs.Reader.History
import Calculator.Proofs.Reader.Simulation

/-!
# Calls on one reader

A reader can be asked for expressions again and again, also after a fault. Here stands what holds of it
whatever has been called before (`afterCalls_state`): how deep in groups it takes itself to be, which
height it remembers, what it has taken, and where it stands after a text that is no token.

A fault leaves the groups counted as open whose inner expression it ends. To say which these are, the
rules are run with a watch around the expression in every group (`watched`). The watch leaves a mark
wherever a fault passes it, and it raises an alarm if the depth is out of its bounds where it is about to
change. The rules with and without the watch are compared by a `Simulation`: no alarm is ever raised, and
the marks are as many as the depth has grown by.
-/

namespace Calculator

namespace Reader

/-! ## Calls -/

/-- What a reader can be asked for. -/
inductive Call where
  | expression
  | complete
  deriving DecidableEq, Repr

/-- The rule of a call. -/
def Call.rule : Call → Rule Expr
  | .expression => Reader.expression
  | .complete => Reader.complete

/-- The reader behind a rule, whether the rule gives a result or fails. -/
def behind (rule : Rule Expr) (r : Reader) : Reader :=
  match rule r with
  | .ok _ s => s
  | .error _ s => s

/-- What a call gives. -/
def answer (call : Call) (r : Reader) : Except Fault Expr :=
  match call.rule r with
  | .ok e _ => .ok e
  | .error fault _ => .error fault

/-- The reader behind calls. -/
def afterCalls (r : Reader) (calls : List Call) : Reader :=
  calls.foldl (fun r call => behind call.rule r) r

/-! ## The watch -/

/-- A group is open, and no more than there may be. -/
def InGroup (r : Reader) : Prop := 0 < r.groupDepth ∧ r.groupDepth ≤ depthLimit

instance (r : Reader) : Decidable r.InGroup := inferInstanceAs (Decidable (_ ∧ _))

/-- A rule for what stands in a group, under watch: an alarm is raised if the reader is not in a group
before it or behind its result, and a fault leaves a mark on the reader. -/
def watched (alarm : Fault) (mark : Reader → Reader) (inner : Rule Expr) : Rule Expr := fun r =>
  if r.InGroup then
    match inner r with
    | .ok e s => if s.InGroup then .ok e s else .error alarm s
    | .error fault s => .error fault (mark s)
  else .error alarm r

/-- Reads an expression with every group under watch. -/
def watchedExpression (alarm : Fault) (mark : Reader → Reader) : Rule Expr := do
  expressionAround (watched alarm mark) (depthLimit - (← get).groupDepth)

/-- Only the scanner of a reader has moved, over something that is no token. The token that is looked at
was to be taken. -/
def Stumbled (first : Reader) (fault : Fault) (r : Reader) : Prop :=
  r.current.kind ≠ .endOfInput ∧
    ∃ taken s, History first taken { r with scanner := s } ∧ s.scan = (.error fault, r.scanner)

/-- The open groups use up all levels but so many. -/
structure LevelsLeft (first : Reader) (k : Nat) (r : Reader) : Prop where
  groupDepth_add : r.groupDepth + k = depthLimit
  history : ∃ taken, History first taken r

/-- A fault has been found in so many groups that it leaves unfinished, where so many levels were left
in front of the outermost of them. -/
structure Stopped (first : Reader) (k unfinished : Nat) (fault : Fault) (r : Reader) : Prop where
  groupDepth_add : r.groupDepth + k = depthLimit + unfinished
  unfinished_le : unfinished ≤ k
  history : ∃ taken, History first taken r
  stumbled : fault.cause.kind = .lexical → Stumbled first fault r

section

variable {first r : Reader} {k : Nat}

theorem LevelsLeft.recount (h : LevelsLeft first k r) {k' : Nat} (height groupDepth : Nat)
    (hdepth : groupDepth + k' = depthLimit) : LevelsLeft first k' { r with height, groupDepth } := by
  obtain ⟨taken, htaken⟩ := h.history
  exact ⟨hdepth, taken, htaken.recount height groupDepth⟩

theorem LevelsLeft.advance (h : LevelsLeft first k r) (hmore : r.current.kind ≠ .endOfInput) :
    match advance r with
    | .ok token s => token = r.current ∧ LevelsLeft first k s ∧ s.height = r.height
    | .error fault s => Stopped first k 0 fault s := by
  obtain ⟨hdepth, taken, htaken⟩ := h
  rcases hscan : r.scanner.scan with ⟨item, behind⟩
  unfold Reader.advance
  rw [hscan]
  cases item with
  | ok next => exact ⟨rfl, ⟨hdepth, _, htaken.take hmore hscan⟩, rfl⟩
  | error fault =>
    exact ⟨hdepth, Nat.zero_le k, ⟨taken, htaken.stumble hmore hscan⟩, fun _ =>
      ⟨hmore, taken, r.scanner, htaken, hscan⟩⟩

end

/-- The watch changes nothing but for the marks, of which there is one for each group that a fault leaves
unfinished. -/
def underWatch (first : Reader) (alarm : Fault) (mark : Reader → Reader) :
    Simulation (watched alarm mark) where
  before k r r' := r' = r ∧ LevelsLeft first k r
  behind k r r' := r' = r ∧ LevelsLeft first k r
  tokens t t' := t' = t
  spans a a' := a' = a
  exprs e e' := e' = e ∧ e.height ≤ depthLimit
  failed k fault fault' s s' :=
    fault' = fault ∧ ∃ unfinished, s' = mark^[unfinished] s ∧ Stopped first k unfinished fault s
  before_of_behind h := h
  kind_eq h := by rw [h.1]
  lexeme_eq h := by rw [h.1]
  current_span h := by rw [h.1]
  current h _ := by rw [h.1]
  missing h := by rw [h.1]
  value_eq h := by rw [h]
  token_span h := by rw [h]
  cover h h' := by rw [h, h']
  numbers value h := by rw [h]; exact ⟨rfl, Nat.succ_le_of_lt (Nat.succ_pos 255)⟩
  groups h he h' := by rw [h, he.1, h', Expr.height_withSpan]; exact ⟨rfl, he.2⟩
  joins _ hl hr hheight := ⟨by rw [hl.1, hr.1], hheight⟩
  height_eq h := by rw [h.1]
  advances := by
    rintro k _ r ⟨rfl, h⟩ hmore
    have hadvance := h.advance hmore
    cases hrule : advance r with
    | ok token s =>
      rw [hrule] at hadvance
      obtain ⟨htoken, hs, hheight⟩ := hadvance
      exact relates_of_ok hrule hrule ⟨htoken, htoken, ⟨rfl, hs⟩, hheight, hheight⟩
    | error fault s =>
      rw [hrule] at hadvance
      exact relates_of_error hrule hrule ⟨rfl, 0, rfl, hadvance⟩
  records := by
    rintro k r _ height ⟨rfl, h⟩
    exact ⟨rfl, h.recount _ _ h.groupDepth_add⟩
  deepens := by
    rintro k r _ ⟨rfl, h⟩
    have hdepth := h.groupDepth_add
    exact ⟨rfl, h.recount _ _ (by omega)⟩
  surfaces := by
    rintro k r _ s _ ⟨rfl, hr⟩ ⟨rfl, hs⟩
    have hdepth := hr.groupDepth_add
    have hdepth' := hs.groupDepth_add
    exact ⟨rfl, hs.recount _ _ (by omega)⟩
  blames := by
    rintro k r _ cause span _ ⟨rfl, h⟩ hcause rfl
    refine ⟨rfl, 0, rfl, h.groupDepth_add, Nat.zero_le k, h.history, fun hlexical => ?_⟩
    rw [hcause] at hlexical
    cases hlexical
  surrounds := by
    rintro k r r' rule rule' ⟨hsame, hr⟩ hrules
    have hdepth := hr.groupDepth_add
    have hopen : 0 < r.deeper.groupDepth := Nat.succ_pos _
    have hin : r.deeper.InGroup := ⟨hopen, by omega⟩
    rw [hsame] at hrules ⊢
    rcases hrules.cases with ⟨e, s, e', s', hrule, hrule', he, ⟨rfl, hs⟩, hheights⟩ |
      ⟨fault, s, fault', _, hrule, hrule', rfl, unfinished, rfl, hstopped⟩
    · -- as many levels are left behind the expression as before it, so the group is still counted
      have hdepth' := hs.groupDepth_add
      have hin' : s'.InGroup := ⟨by omega, by omega⟩
      have hwatched : watched alarm mark rule' r.deeper = .ok e' s' := by
        rw [watched, if_pos hin, hrule']
        exact if_pos hin'
      exact relates_of_ok hrule hwatched ⟨he, ⟨rfl, hs⟩, hheights⟩
    · have hadd := hstopped.groupDepth_add
      have hle := hstopped.unfinished_le
      have hwatched : watched alarm mark rule' r.deeper =
          .error fault' (mark^[unfinished + 1] s) := by
        rw [watched, if_pos hin, hrule', Function.iterate_succ_apply']
      exact relates_of_error hrule hwatched ⟨rfl, unfinished + 1, rfl, by omega, by omega,
        hstopped.history, hstopped.stumbled⟩

/-! ## One call -/

/-- What holds of a reader between two calls. -/
structure Steady (first r : Reader) : Prop where
  groupDepth_le : r.groupDepth ≤ depthLimit
  history : ∃ taken, History first taken r

section

variable {first r s : Reader} {e : Expr} {fault : Fault}

theorem Steady.expression_watched (h : Steady first r) (alarm : Fault) (mark : Reader → Reader) :
    Relates expression (watchedExpression alarm mark) r r
      (fun e e' s s' => e' = e ∧ s' = s ∧ e.height ≤ depthLimit ∧ s.height = e.height ∧
        LevelsLeft first (depthLimit - r.groupDepth) s)
      (fun fault fault' s s' => fault' = fault ∧ ∃ unfinished, s' = mark^[unfinished] s ∧
        Stopped first (depthLimit - r.groupDepth) unfinished fault s) := by
  have hle := h.groupDepth_le
  have hwatched := (underWatch first alarm mark).expressionAround_relates
    (depthLimit - r.groupDepth) r r ⟨rfl, by omega, h.history⟩
  refine relates_get (relates_get hwatched) |>.mono ?_ ?_
  · rintro e e' s s' ⟨⟨he, hheight⟩, ⟨hs, hleft⟩, hheights⟩
    exact ⟨he, hs, hheight, hheights.1, hleft⟩
  · exact fun _ _ _ _ hfailed => hfailed

/-- A call that reads an expression counts no group more or less, and remembers the height. -/
theorem Steady.expression_ok (h : Steady first r) (hrule : expression r = .ok e s) :
    Steady first s ∧ s.groupDepth = r.groupDepth ∧ e.height ≤ depthLimit ∧ s.height = e.height ∧
      ∀ alarm mark, watchedExpression alarm mark r = .ok e s := by
  have hboth : ∀ alarm mark, watchedExpression alarm mark r = .ok e s ∧ e.height ≤ depthLimit ∧
      s.height = e.height ∧ LevelsLeft first (depthLimit - r.groupDepth) s := by
    intro alarm mark
    obtain ⟨_, _, hwatched, rfl, rfl, hrest⟩ := (h.expression_watched alarm mark).of_ok hrule
    exact ⟨hwatched, hrest⟩
  obtain ⟨-, hheight, hsame, hleft⟩ := hboth ⟨.unexpectedEnd, .single 0⟩ id
  have hle := h.groupDepth_le
  have hdepth := hleft.groupDepth_add
  exact ⟨⟨by omega, hleft.history⟩, by omega, hheight, hsame, fun alarm mark => (hboth alarm mark).1⟩

/-- A call that fails counts the groups in addition that it leaves unfinished. -/
theorem Steady.expression_error (h : Steady first r) (hrule : expression r = .error fault s) :
    Steady first s ∧ r.groupDepth ≤ s.groupDepth ∧
      (∀ alarm mark, watchedExpression alarm mark r =
        .error fault (mark^[s.groupDepth - r.groupDepth] s)) ∧
      (fault.cause.kind = .lexical → Stumbled first fault s) := by
  have hle := h.groupDepth_le
  have hboth : ∀ alarm mark, ∃ unfinished,
      watchedExpression alarm mark r = .error fault (mark^[unfinished] s) ∧
        Stopped first (depthLimit - r.groupDepth) unfinished fault s := by
    intro alarm mark
    obtain ⟨_, _, hwatched, rfl, unfinished, rfl, hstopped⟩ :=
      (h.expression_watched alarm mark).of_error hrule
    exact ⟨unfinished, hwatched, hstopped⟩
  obtain ⟨unfinished, -, hstopped⟩ := hboth ⟨.unexpectedEnd, .single 0⟩ id
  have hdepth := hstopped.groupDepth_add
  have hbound := hstopped.unfinished_le
  refine ⟨⟨by omega, hstopped.history⟩, by omega, fun alarm mark => ?_, hstopped.stumbled⟩
  -- how many groups are unfinished does not depend on the watch, because the depth tells it
  obtain ⟨unfinished', hmarked, hstopped'⟩ := hboth alarm mark
  have hdepth' := hstopped'.groupDepth_add
  have hcount : s.groupDepth - r.groupDepth = unfinished' := by omega
  rw [hcount, hmarked]

/-- A call reads an expression, and may then still refuse what follows it. -/
theorem rule_cases (call : Call) (r : Reader) :
    (∃ e s, expression r = .ok e s ∧
        (call.rule r = .ok e s ∨
          ∃ cause span, cause.kind = .grammar ∧ call.rule r = .error ⟨cause, span⟩ s)) ∨
      ∃ fault s, expression r = .error fault s ∧ call.rule r = .error fault s := by
  cases hread : expression r with
  | error fault s =>
    refine Or.inr ⟨fault, s, rfl, ?_⟩
    cases call with
    | expression => exact hread
    | complete => rw [Call.rule, complete_eq, hread]
  | ok e s =>
    refine Or.inl ⟨e, s, rfl, ?_⟩
    cases call with
    | expression => exact Or.inl hread
    | complete =>
      rw [Call.rule, complete_eq, hread]
      dsimp only
      by_cases hend : s.current.kind = .endOfInput
      · exact Or.inl (if_pos hend)
      · exact Or.inr ⟨_, _, rfl, if_neg hend⟩

theorem behind_rule (call : Call) (r : Reader) : behind call.rule r = behind expression r := by
  unfold behind
  rcases rule_cases call r with ⟨e, s, hread, hrule | ⟨cause, span, -, hrule⟩⟩ | ⟨_, s, hread, hrule⟩
  all_goals rw [hread, hrule]

/-- A call that gives an expression has read it as any other. -/
theorem expression_of_rule {call : Call} (hrule : call.rule r = .ok e s) : expression r = .ok e s := by
  rcases rule_cases call r with ⟨e', s', hread, hsame | ⟨_, _, -, hfault⟩⟩ | ⟨_, _, -, hfault⟩
  · rw [hread, ← hsame, hrule]
  · cases hrule.symm.trans hfault
  · cases hrule.symm.trans hfault

/-- A call that fails on something that is no token has failed so within an expression. -/
theorem expression_of_rule_error {call : Call} (hrule : call.rule r = .error fault s)
    (hlexical : fault.cause.kind = .lexical) : expression r = .error fault s := by
  rcases rule_cases call r with ⟨_, _, -, hresult | ⟨cause, span, hgrammar, hfault⟩⟩ |
    ⟨fault', s', hread, hsame⟩
  · cases hrule.symm.trans hresult
  · obtain ⟨rfl, -⟩ := EStateM.Result.error.inj (hrule.symm.trans hfault)
    cases hgrammar.symm.trans hlexical
  · rw [hread, ← hsame, hrule]

theorem Steady.call (h : Steady first r) (call : Call) : Steady first (behind call.rule r) := by
  rw [behind_rule, behind]
  cases hrule : expression r with
  | ok e s => exact (h.expression_ok hrule).1
  | error fault s => exact (h.expression_error hrule).1

/-- No call unsettles a reader. -/
theorem Steady.afterCalls (h : Steady first r) (calls : List Call) :
    Steady first (r.afterCalls calls) := by
  induction calls generalizing r with
  | nil => exact h
  | cons call calls ih => exact ih (h.call call)

end

end Reader

/-! ## Any number of calls -/

instance decidableEqResult {α : Type} [DecidableEq α] :
    DecidableEq (EStateM.Result Fault Reader α)
  | .ok a s, .ok b t => decidable_of_iff (a = b ∧ s = t) (by simp)
  | .error a s, .error b t => decidable_of_iff (a = b ∧ s = t) (by simp)
  | .ok _ _, .error _ _ => .isFalse nofun
  | .error _ _, .ok _ _ => .isFalse nofun

open Reader in
/-- What holds of a reader of any text, made behind any number of scans, after any calls. The depth that
it counts is within the limit wherever it changes, and remains if an expression is read. A fault leaves
it raised by the groups whose inner expression it has ended. The height that is remembered is that of
the expression read. The end that is remembered is that of the token taken last, which lies before the
token that is looked at. And if what follows that token is no token, only the scanner moves. -/
theorem afterCalls_state (source : List Char) (skipped : Nat) {first : Reader}
    (hfirst : ofScanner ((fun s : Scanner => s.scan.2)^[skipped] (.ofSource source)) = .ok first)
    (calls : List Call) :
    let r := first.afterCalls calls
    r.groupDepth ≤ depthLimit ∧
    (∃ taken, History first taken r) ∧
    (∀ taken m, History first taken m →
      (∀ last, taken.getLast? = some last → m.previousEnd = last.span.stop) ∧
      m.previousEnd ≤ m.current.span.start ∧ m.current.span.start ≤ m.scanner.position) ∧
    (∀ call : Call, behind call.rule r = behind expression r) ∧
    (∀ (call : Call) e s, call.rule r = .ok e s → e.height ≤ depthLimit) ∧
    (∀ e s, expression r = .ok e s →
      s.groupDepth = r.groupDepth ∧ s.height = e.height ∧
      ∀ alarm mark, watchedExpression alarm mark r = .ok e s) ∧
    (∀ fault s, expression r = .error fault s →
      r.groupDepth ≤ s.groupDepth ∧ s.groupDepth ≤ depthLimit ∧
      ∀ alarm mark, watchedExpression alarm mark r =
        .error fault (mark^[s.groupDepth - r.groupDepth] s)) ∧
    ∀ (call : Call) fault s, call.rule r = .error fault s → fault.cause.kind = .lexical →
      Stumbled first fault s ∧
      ((∃ c, fault.cause = .unexpectedCharacter c ∧ s.scanner.position = fault.span.start ∧
          s.scanner.scan = (.error fault, s.scanner)) ∨
        ∃ digits, fault.cause = .numberTooLarge digits ∧ s.scanner.position = fault.span.stop) := by
  intro r
  obtain ⟨hordered, hdepth⟩ := inOrder_of_ofScanner hfirst
  have hstart : Steady first first := ⟨by omega, [], .start⟩
  have hsteady : Steady first r := hstart.afterCalls calls
  refine ⟨hsteady.groupDepth_le, hsteady.history, fun taken m hm => ?_, fun call => behind_rule call r,
    fun call e s hrule => ?_, fun e s hrule => ?_, fun fault s hrule => ?_,
    fun call fault s hrule hlexical => ?_⟩
  · have hm_ordered := hm.inOrder hordered
    exact ⟨fun _ => hm.previousEnd_eq, hm_ordered.previousEnd_le, hm_ordered.start_le⟩
  · exact (hsteady.expression_ok (expression_of_rule hrule)).2.2.1
  · obtain ⟨-, hsame, -, hheight, hwatched⟩ := hsteady.expression_ok hrule
    exact ⟨hsame, hheight, hwatched⟩
  · obtain ⟨hs, hle, hwatched, -⟩ := hsteady.expression_error hrule
    exact ⟨hle, hs.groupDepth_le, hwatched⟩
  · obtain ⟨-, -, -, hstumbled⟩ :=
      hsteady.expression_error (expression_of_rule_error hrule hlexical)
    obtain ⟨_, _, _, _, hscan⟩ := hstumbled hlexical
    exact ⟨hstumbled hlexical, Scanner.scan_error hscan⟩

/-- The second token of a text is the first that is read. A number that is too large leaves two groups
open. The next call goes on behind it, within a group that it leaves open as well and another one that
only lacks its end. -/
theorem afterCalls_state_damaged :
    ∃ first r s, Reader.ofScanner ((fun s : Scanner => s.scan.2)^[1]
        (.ofSource "9((1 99999999999999999999+((2".toList)) = .ok first ∧
      first.afterCalls [.expression] = r ∧ r.groupDepth = 2 ∧ (∃ taken, Reader.History first taken r) ∧
      Reader.expression r = .error ⟨.unclosedGroup, .single 29⟩ s ∧ s.groupDepth = 3 ∧
      ∀ alarm mark, Reader.watchedExpression alarm mark r =
        .error ⟨.unclosedGroup, .single 29⟩ (mark s) := by
  let first : Reader :=
    ⟨⟨2, "(1 99999999999999999999+((2".toList, false⟩, .mark .leftParen '(' 1, 0, 0, 0⟩
  let one : Token := .integer ⟨1, by decide, by decide⟩ "1".toList ⟨3, 4⟩
  let r : Reader := ⟨⟨25, "+((2".toList, false⟩, one, 3, 0, 2⟩
  let s : Reader := ⟨⟨29, [], false⟩, .endOfInput 29, 29, 1, 3⟩
  have hfirst : Reader.ofScanner ((fun s : Scanner => s.scan.2)^[1]
      (.ofSource "9((1 99999999999999999999+((2".toList)) = .ok first := by rfl
  have hcalls : first.afterCalls [.expression] = r := by decide +kernel
  have hrule : Reader.expression r = .error ⟨.unclosedGroup, .single 29⟩ s := by decide +kernel
  obtain ⟨-, hhistory, -, -, -, -, hfaults, -⟩ := afterCalls_state _ 1 hfirst [.expression]
  rw [hcalls] at hhistory hfaults
  exact ⟨first, r, s, hfirst, hcalls, rfl, hhistory, hrule, rfl, (hfaults _ _ hrule).2.2⟩

end Calculator
