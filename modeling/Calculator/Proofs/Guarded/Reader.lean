import Calculator.Proofs.Guarded.Evaluation
import Calculator.Proofs.Reader.Completeness
import Calculator.Proofs.Reader.Simulation
import Calculator.Proofs.Token.Slices

/-!
# Reading under guard

Here the rules of a reader are written out with a check of all that they take for granted. A token is
scanned by slices of the text. What has been looked at is looked at once more when it is taken, and is
refused if it is something else: an operator, a number, an opening parenthesis. A number has to have a
value. A group that ends has to be counted as open.

The rules end alike under guard and without (`expression_safe`). What carries this is an invariant of the
reader (`Sound`): its scanner stands in the text, and a number that is looked at has a value. Each rule
keeps it, also where it fails; and where a rule gives a result, as many groups are open as before.
-/

namespace Calculator

/-- A part of reading under guard. -/
abbrev GuardedRule := EStateM Stop Reader

namespace Guarded

/-! ## Rules -/

/-- A rule that takes nothing for granted. -/
def unguarded {α : Type} (rule : Rule α) : GuardedRule α := rule.adaptExcept .fault

/-- Breaks off. -/
def breach {α : Type} (found : Breach) : GuardedRule α := throw (.breach found)

/-- Takes the token that is looked at. The next one is scanned by slices of the text. -/
def advance (source : List Char) : GuardedRule Token := fun r =>
  match r.scanner.scanIn source with
  | none => .error (.breach .slice) r
  | some (.ok next, behind) =>
    .ok r.current { r with scanner := behind, current := next, previousEnd := r.current.span.stop }
  | some (.error fault, behind) => .error (.fault fault) { r with scanner := behind }

/-- Takes a token of a kind, and refuses any other. -/
def consume (source : List Char) (kind : Token.Kind) (message : String) : GuardedRule Token := do
  if (← get).current.kind = kind then
    advance source
  else
    breach (.refused (.grammar (← get).missingSpan message))

/-- Counts one group less as open. There has to be one. -/
def leaveGroup : GuardedRule Unit := fun r =>
  if r.groupDepth = 0 then .error (.breach .noOpenGroup) r
  else .ok ⟨⟩ r.shallower

/-- Whether an operator of a level is looked at. -/
def continues (level : Level) (kind : Token.Kind) : Bool :=
  Operator.all.any fun operator => operator.level = level && kind = .operator operator

/-- Joins operands to `left` as long as operators of `level` follow. The token that is then taken has to
be one of them. -/
def chainFrom (source : List Char) (level : Level) (operand : GuardedRule Expr) (left : Expr)
    (height : Nat) : GuardedRule Expr := do
  if continues level (← get).current.kind then
    let token ← advance source
    match token.kind.operatorAt? level with
    | none => breach .noOperator
    | some operator =>
      unguarded (Reader.requireOperand operator token)
      let right ← operand
      let joined := max height (← get).height + 1
      if _within : joined ≤ depthLimit then
        chainFrom source level operand (.join left operator right) joined
      else
        unguarded (Reader.blame (.tooDeep depthLimit) token.span)
  else
    unguarded (Reader.record height left)
termination_by depthLimit - height
decreasing_by omega

/-- One operand, and those that follow with operators of `level` between them. -/
def chain (source : List Char) (level : Level) (operand : GuardedRule Expr) : GuardedRule Expr := do
  let left ← operand
  chainFrom source level operand left (← get).height

/-- Reads a number. -/
def number (source : List Char) : GuardedRule Expr := do
  let token ← consume source .integer "Expected integer"
  match token.value with
  | none => breach (.refused (.grammar token.span "Invalid integer"))
  | some value => unguarded (Reader.record 1 (.number value token.span))

/-- Reads what stands behind an opening parenthesis, up to its partner. -/
def groupBody (source : List Char) (inner : GuardedRule Expr) (opening : Token) :
    GuardedRule Expr := do
  if (← get).current.kind = .rightParen then
    unguarded (Reader.blame .emptyGroup (opening.span.cover (← get).current.span))
  modify Reader.deeper
  let e ← inner
  leaveGroup
  if (← get).current.kind = .rightParen then
    let closing ← advance source
    return e.withSpan (opening.span.cover closing.span)
  else
    unguarded (Reader.blame .unclosedGroup (← get).missingSpan)

/-- Reads a group, if there is a rule for what stands in it. -/
def group (source : List Char) (inner : Option (GuardedRule Expr)) : GuardedRule Expr := do
  let opening ← consume source .leftParen "Expected '('"
  match inner with
  | none => unguarded (Reader.blame (.tooDeep depthLimit) opening.span)
  | some inner => groupBody source inner opening

/-- Reads a number or a group. -/
def factor (source : List Char) (inner : Option (GuardedRule Expr)) : GuardedRule Expr := do
  let token := (← get).current
  match token.kind with
  | .integer => number source
  | .leftParen => group source inner
  | .endOfInput => unguarded (Reader.blame .unexpectedEnd token.span)
  | kind => unguarded (Reader.blame (.noExpression kind token.lexeme) token.span)

/-- The rule for what stands in a group, if there may be one more. -/
def expressionWithin (source : List Char) : Nat → GuardedRule Expr
  | 0 => chain source .sum (chain source .product (factor source none))
  | levels + 1 =>
    chain source .sum (chain source .product (factor source (some (expressionWithin source levels))))

/-- Reads an expression and leaves what follows it. -/
def expression (source : List Char) : GuardedRule Expr := do
  expressionWithin source (depthLimit - (← get).groupDepth)

/-- Reads an expression with which the input has to end. -/
def complete (source : List Char) : GuardedRule Expr := do
  let e ← expression source
  let next := (← get).current
  if next.kind = .endOfInput then
    return e
  else
    unguarded (Reader.blame (.trailingInput next.kind next.lexeme) next.span)

/-- A reader of the tokens of a scanner. The first is scanned by slices. -/
def ofScanner (source : List Char) (scanner : Scanner) : Except Stop Reader :=
  match scanner.scanIn source with
  | none => .error (.breach .slice)
  | some (.ok token, behind) => .ok ⟨behind, token, 0, 0, 0⟩
  | some (.error fault, _) => .error (.fault fault)

/-! ## What is kept -/

/-- A reader whose scanner stands in a text, and that looks at a number only if this has a value. -/
structure Sound (source : List Char) (r : Reader) : Prop where
  standsIn : r.scanner.StandsIn source
  value_isSome : r.current.kind = .integer → r.current.value.isSome

/-- Under guard a rule ends as it ends without. If it fails, the reader remains sound. -/
def Keeps {α : Type} (source : List Char) (guarded : GuardedRule α) (rule : Rule α) (r : Reader)
    (onResult : α → Reader → Prop) : Prop :=
  match rule r with
  | .ok a s => guarded r = .ok a s ∧ onResult a s
  | .error fault s =>
    guarded r = .error (.fault fault) s ∧ Sound source s ∧ fault.cause ≠ .numberWithoutValue

section

variable {α β : Type} {source : List Char} {r : Reader} {guarded : GuardedRule α} {rule : Rule α}
  {P : α → Reader → Prop} {Q : β → Reader → Prop}

theorem Keeps.bind {next : α → Rule β} {guardedNext : α → GuardedRule β}
    (h : Keeps source guarded rule r P)
    (hnext : ∀ a s, P a s → Keeps source (guardedNext a) (next a) s Q) :
    Keeps source (guarded >>= guardedNext) (rule >>= next) r Q := by
  unfold Keeps at h
  show Keeps source (EStateM.bind guarded guardedNext) (EStateM.bind rule next) r Q
  split at h
  · next a s hrule =>
    obtain ⟨hguarded, hP⟩ := h
    have hthen := hnext a s hP
    unfold Keeps at hthen ⊢
    simpa only [EStateM.bind, hrule, hguarded] using hthen
  · next fault s hrule =>
    obtain ⟨hguarded, hrest⟩ := h
    unfold Keeps
    simpa only [EStateM.bind, hrule, hguarded, true_and] using hrest

theorem keeps_get {next : Reader → Rule β} {guardedNext : Reader → GuardedRule β}
    (h : Keeps source (guardedNext r) (next r) r Q) :
    Keeps source (get >>= guardedNext) (get >>= next) r Q := h

theorem keeps_modify {f : Reader → Reader} {next : PUnit → Rule β}
    {guardedNext : PUnit → GuardedRule β} (h : Keeps source (guardedNext ⟨⟩) (next ⟨⟩) (f r) Q) :
    Keeps source (modify f >>= guardedNext) (modify f >>= next) r Q := h

theorem keeps_pure {a : α} (h : P a r) : Keeps source (pure a) (pure a) r P := ⟨rfl, h⟩

theorem keeps_unguarded {rule : Rule α}
    (h : match rule r with
      | .ok a s => P a s
      | .error fault s => Sound source s ∧ fault.cause ≠ .numberWithoutValue) :
    Keeps source (unguarded rule) rule r P := by
  unfold Keeps unguarded EStateM.adaptExcept
  split <;> simp_all

theorem keeps_blame {cause : Cause} {span : Span} (h : Sound source r)
    (hcause : cause ≠ .numberWithoutValue) :
    Keeps source (unguarded (Reader.blame cause span)) (Reader.blame cause span) r P :=
  ⟨rfl, h, hcause⟩

theorem keeps_blame_bind {cause : Cause} {span : Span} {next : α → Rule β}
    {guardedNext : α → GuardedRule β} (h : Sound source r) (hcause : cause ≠ .numberWithoutValue) :
    Keeps source (unguarded (Reader.blame cause span) >>= guardedNext)
      (Reader.blame cause span >>= next) r Q :=
  ⟨rfl, h, hcause⟩

theorem keeps_record {height : Nat} {e : Expr} {P : Expr → Reader → Prop}
    (h : P e { r with height }) :
    Keeps source (unguarded (Reader.record height e)) (Reader.record height e) r P :=
  ⟨rfl, h⟩

end

/-- A rule is safe to guard: from a sound reader it ends alike under guard and without, and with a result
it leaves a sound reader with as many open groups. -/
def Safe (source : List Char) (guarded : GuardedRule Expr) (rule : Rule Expr) : Prop :=
  ∀ r, Sound source r → Keeps source guarded rule r fun _ s =>
    Sound source s ∧ s.groupDepth = r.groupDepth

section

variable {source : List Char} {r : Reader}

/-! ## Tokens -/

theorem Sound.same {s : Reader} (h : Sound source r) (hscanner : s.scanner = r.scanner)
    (hcurrent : s.current = r.current) : Sound source s :=
  ⟨hscanner ▸ h.standsIn, hcurrent ▸ h.value_isSome⟩

/-- What is no token has another cause than a number without a value. -/
theorem cause_ne_of_scan {s behind : Scanner} {fault : Fault}
    (hscan : s.scan = (.error fault, behind)) : fault.cause ≠ .numberWithoutValue := by
  intro hcause
  rcases Scanner.scan_error hscan with ⟨c, hother, -⟩ | ⟨digits, hother, -⟩
  · cases hcause.symm.trans hother
  · cases hcause.symm.trans hother

theorem advance_keeps (h : Sound source r) :
    Keeps source (advance source) Reader.advance r fun token s =>
      token = r.current ∧ Sound source s ∧ s.groupDepth = r.groupDepth := by
  have hscan := h.standsIn.scanIn_eq
  have hbehind := h.standsIn.scan
  unfold Keeps advance Reader.advance
  rw [hscan]
  rcases hitem : r.scanner.scan with ⟨item, behind⟩
  rw [hitem] at hbehind
  cases item with
  | ok next =>
    exact ⟨rfl, rfl, ⟨hbehind, fun hkind => Scanner.scan_value_isSome hitem hkind⟩, rfl⟩
  | error fault =>
    exact ⟨rfl, ⟨hbehind, h.value_isSome⟩, cause_ne_of_scan hitem⟩

/-- What has been looked at is what is taken. -/
theorem consume_keeps {kind : Token.Kind} {message : String} (h : Sound source r)
    (hkind : r.current.kind = kind) :
    Keeps source (consume source kind message) Reader.advance r fun token s =>
      token = r.current ∧ Sound source s ∧ s.groupDepth = r.groupDepth := by
  have hconsume : consume source kind message r = advance source r := by
    show (if r.current.kind = kind then advance source else _) r = _
    rw [if_pos hkind]
  have hadvance := advance_keeps h
  unfold Keeps at hadvance ⊢
  rwa [hconsume]

/-- At the end of the input no number is taken, in the words that are written for it. -/
example (source : List Char) :
    let r : Reader := ⟨⟨0, [], false⟩, .endOfInput 0, 0, 0, 0⟩
    number source r = .error (.breach (.refused (.grammar (.single 0) "Expected integer"))) r := rfl

/-! ## Chains -/

theorem continues_eq (level : Level) (kind : Token.Kind) :
    continues level kind = (kind.operatorAt? level).isSome := by
  cases kind with
  | operator operator => cases operator <;> cases level <;> rfl
  | _ => simp [continues, Token.Kind.operatorAt?]

theorem requireOperand_keeps {operator : Operator} {token : Token} (h : Sound source r) :
    Keeps source (unguarded (Reader.requireOperand operator token))
      (Reader.requireOperand operator token) r fun _ s => s = r := by
  have hrule : Reader.requireOperand operator token r =
      if r.current.kind.startsOperand then .ok ⟨⟩ r
      else .error ⟨.missingOperand operator, token.span⟩ r := by
    unfold Reader.requireOperand
    rw [Reader.get_bind]
    cases r.current.kind.startsOperand <;> rfl
  refine keeps_unguarded ?_
  rw [hrule]
  cases r.current.kind.startsOperand with
  | true => exact rfl
  | false => exact ⟨h, by simp⟩

theorem chainFrom_keeps {level : Level} {guarded : GuardedRule Expr} {rule : Rule Expr}
    (hoperand : Safe source guarded rule) (left : Expr) (height : Nat) (h : Sound source r) :
    Keeps source (chainFrom source level guarded left height) (Reader.chainFrom level rule left height)
      r fun _ s => Sound source s ∧ s.groupDepth = r.groupDepth := by
  -- each join raises the height, which the limit bounds
  induction hleft : depthLimit - height using Nat.strongRecOn generalizing left height r with
  | _ n ih =>
  rw [chainFrom, Reader.chainFrom]
  refine keeps_get ?_
  rw [continues_eq]
  cases hnext : r.current.kind.operatorAt? level with
  | none => exact keeps_record ⟨h.same rfl rfl, rfl⟩
  | some operator =>
    refine Keeps.bind (advance_keeps h) ?_
    rintro _ s ⟨rfl, hs, hdepth⟩
    -- what is taken is what has been looked at
    rw [hnext]
    refine Keeps.bind (requireOperand_keeps hs) ?_
    rintro _ _ rfl
    refine Keeps.bind (hoperand _ hs) ?_
    rintro right t ⟨ht, hdepth'⟩
    refine keeps_get ?_
    dsimp only
    split
    · next hwithin =>
      rw [← hdepth, ← hdepth']
      exact ih _ (by rw [← hleft]; omega) _ _ ht rfl
    · exact keeps_blame ht (by simp)

theorem chain_safe {level : Level} {guarded : GuardedRule Expr} {rule : Rule Expr}
    (h : Safe source guarded rule) :
    Safe source (chain source level guarded) (Reader.chain level rule) := by
  intro r hr
  refine Keeps.bind (h r hr) ?_
  rintro left s ⟨hs, hdepth⟩
  refine keeps_get ?_
  rw [← hdepth]
  exact chainFrom_keeps h left s.height hs

/-! ## Factors -/

theorem number_keeps (h : Sound source r) (hkind : r.current.kind = .integer) :
    Keeps source (number source) Reader.number r fun _ s =>
      Sound source s ∧ s.groupDepth = r.groupDepth := by
  obtain ⟨value, hvalue⟩ := Option.isSome_iff_exists.mp (h.value_isSome hkind)
  refine Keeps.bind (consume_keeps h hkind) ?_
  rintro _ s ⟨rfl, hs, hdepth⟩
  rw [hvalue]
  exact keeps_record ⟨hs.same rfl rfl, hdepth⟩

theorem leaveGroup_keeps (hopen : r.groupDepth ≠ 0) :
    Keeps source leaveGroup (modify Reader.shallower) r fun _ s => s = r.shallower :=
  ⟨if_neg hopen, rfl⟩

/-- With no group open there is none to leave. -/
example (scanner : Scanner) (token : Token) (stop height : Nat) :
    leaveGroup ⟨scanner, token, stop, height, 0⟩ =
      .error (.breach .noOpenGroup) ⟨scanner, token, stop, height, 0⟩ := rfl

/-- Behind the expression in a group, the group is left and its parenthesis is taken. -/
theorem groupBody_keeps {guarded : GuardedRule Expr} {rule : Rule Expr} {opening : Token}
    (hinner : Safe source guarded rule) (h : Sound source r) :
    Keeps source (groupBody source guarded opening) (Reader.groupBody rule opening) r fun _ s =>
      Sound source s ∧ s.groupDepth = r.groupDepth := by
  unfold groupBody Reader.groupBody
  refine keeps_get ?_
  split
  · refine keeps_get ?_
    exact keeps_blame_bind h (by simp)
  · refine keeps_modify ?_
    refine Keeps.bind (hinner r.deeper (h.same rfl rfl)) ?_
    rintro e s ⟨hs, hdepth⟩
    -- the expression leaves as many groups open as it has found, so this one is still counted
    have hopen : s.groupDepth = r.groupDepth + 1 := hdepth
    refine Keeps.bind (leaveGroup_keeps (by omega)) ?_
    rintro _ _ rfl
    refine keeps_get ?_
    have hsound : Sound source s.shallower := hs.same rfl rfl
    have hleft : s.shallower.groupDepth = r.groupDepth := by
      show s.groupDepth - 1 = r.groupDepth
      omega
    split
    · refine Keeps.bind (advance_keeps hsound) ?_
      rintro closing t ⟨rfl, ht, hsame⟩
      exact keeps_pure ⟨ht, hsame.trans hleft⟩
    · refine keeps_get ?_
      exact keeps_blame hsound (by simp)

theorem group_keeps {guarded : Option (GuardedRule Expr)} {rule : Option (Rule Expr)}
    (hinner : Option.Rel (Safe source) guarded rule) (h : Sound source r)
    (hkind : r.current.kind = .leftParen) :
    Keeps source (group source guarded) (Reader.group rule) r fun _ s =>
      Sound source s ∧ s.groupDepth = r.groupDepth := by
  refine Keeps.bind (consume_keeps h hkind) ?_
  rintro opening s ⟨rfl, hs, hdepth⟩
  cases hinner with
  | none => exact keeps_blame hs (by simp)
  | some hrule =>
    rw [← hdepth]
    exact groupBody_keeps hrule hs

theorem factor_safe {guarded : Option (GuardedRule Expr)} {rule : Option (Rule Expr)}
    (hinner : Option.Rel (Safe source) guarded rule) :
    Safe source (factor source guarded) (Reader.factor rule) := by
  intro r h
  unfold factor Reader.factor
  refine keeps_get ?_
  dsimp only
  cases hkind : r.current.kind with
  | integer => exact number_keeps h hkind
  | leftParen => exact group_keeps hinner h hkind
  | operator | rightParen | endOfInput => exact keeps_blame h (by simp)

/-! ## Expressions -/

theorem expressionWithin_safe (source : List Char) (levels : Nat) :
    Safe source (expressionWithin source levels) (Reader.expressionWithin levels) := by
  induction levels with
  | zero => exact chain_safe (chain_safe (factor_safe .none))
  | succ levels ih => exact chain_safe (chain_safe (factor_safe (.some ih)))

theorem expression_safe (source : List Char) :
    Safe source (expression source) Reader.expression :=
  fun r h => expressionWithin_safe source (depthLimit - r.groupDepth) r h

theorem complete_safe (source : List Char) : Safe source (complete source) Reader.complete := by
  intro r h
  refine Keeps.bind (expression_safe source r h) ?_
  rintro e s ⟨hs, hdepth⟩
  refine keeps_get ?_
  dsimp only
  split
  · exact keeps_pure ⟨hs, hdepth⟩
  · exact keeps_blame hs (by simp)

end

end Guarded

end Calculator
