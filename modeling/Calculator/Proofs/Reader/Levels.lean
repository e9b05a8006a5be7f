import Calculator.Proofs.Reader.Simulation

/-!
# Levels and open groups

`Reader.expression` starts with as many levels as groups may still be opened, and every group uses one of
them up. So the levels run out exactly where `depthLimit` groups are open: `expression` is the recursion
without levels in which a group counts the groups around it (`expression_eq`).

The idea is that a rule with a result leaves as many groups open as it found. Therefore two rules can
stand for each other in a chain if they are the same wherever as many groups are open (`SameAt`).
-/

namespace Calculator

namespace Reader

/-! ## The recursion without levels -/

/-- Reads a group, unless too many groups are open. -/
def countedGroup (expression : Rule Expr) : Rule Expr := do
  let opening ← advance
  if depthLimit ≤ (← get).groupDepth then
    blame (.tooDeep depthLimit) opening.span
  else
    groupBody expression opening

/-- Reads a number or a group, unless too many groups are open. -/
def countedFactor (expression : Rule Expr) : Rule Expr := do
  let token := (← get).current
  match token.kind with
  | .integer => number
  | .leftParen => countedGroup expression
  | .endOfInput => blame .unexpectedEnd token.span
  | kind => blame (.noExpression kind token.lexeme) token.span

/-! ## Rules that are the same -/

/-- Both runs have the same result and the same reader behind it, with so many groups open. -/
def Same {α : Type} (depth : Nat) (a a' : α) (s s' : Reader) : Prop :=
  a' = a ∧ s' = s ∧ s.groupDepth = depth

/-- Both runs have the same fault and the same reader behind it. -/
def SameFault (fault fault' : Fault) (s s' : Reader) : Prop := fault' = fault ∧ s' = s

/-- Two rules are the same wherever so many groups are open, and leave as many open behind a result. -/
def SameAt {α : Type} (depth : Nat) (rule rule' : Rule α) : Prop :=
  ∀ r : Reader, r.groupDepth = depth → Relates rule rule' r r (Same depth) SameFault

/-- A rule leaves as many groups open behind a result as it found, if these are so many. -/
abbrev KeepsDepth {α : Type} (depth : Nat) (rule : Rule α) : Prop := SameAt depth rule rule

section

variable {α β : Type} {depth : Nat} {rule rule' : Rule α}

theorem SameAt.apply_eq (h : SameAt depth rule rule') {r : Reader} (hr : r.groupDepth = depth) :
    rule r = rule' r := by
  rcases (h r hr).cases with
    ⟨a, s, _, _, hrule, hrule', rfl, rfl, -⟩ | ⟨fault, s, _, _, hrule, hrule', rfl, rfl⟩
  · exact hrule.trans hrule'.symm
  · exact hrule.trans hrule'.symm

/-- What a rule does where so many groups are open is all that counts. -/
theorem SameAt.congr_right {other : Rule α} (h : SameAt depth rule rule')
    (hother : ∀ r : Reader, r.groupDepth = depth → other r = rule r) : SameAt depth rule other := by
  intro r hr
  have hsame := h r hr
  unfold Relates at hsame ⊢
  rw [← h.apply_eq hr] at hsame
  rwa [hother r hr]

theorem SameAt.bind {next next' : α → Rule β} (h : SameAt depth rule rule')
    (hnext : ∀ a, SameAt depth (next a) (next' a)) :
    SameAt depth (rule >>= next) (rule' >>= next') := by
  intro r hr
  refine Relates.bind (h r hr) ?_
  rintro a _ s _ ⟨rfl, rfl, hs⟩
  exact hnext _ _ hs

theorem SameAt.get_bind {next next' : Reader → Rule β} (h : ∀ r, SameAt depth (next r) (next' r)) :
    SameAt depth (get >>= next) (get >>= next') :=
  fun r hr => relates_get (h r r hr)

theorem keepsDepth_pure (a : α) : KeepsDepth depth (pure a) := fun _ hr => ⟨rfl, rfl, hr⟩

theorem keepsDepth_blame (cause : Cause) (span : Span) : KeepsDepth depth (blame cause span : Rule α) :=
  fun _ _ => ⟨rfl, rfl⟩

theorem keepsDepth_record (height : Nat) (e : Expr) : KeepsDepth depth (record height e) :=
  fun _ hr => ⟨rfl, rfl, hr⟩

theorem keepsDepth_advance : KeepsDepth depth advance := by
  intro r hr
  unfold Relates advance
  rcases r.scanner.scan with ⟨item, behind⟩
  cases item with
  | ok next => exact ⟨rfl, rfl, hr⟩
  | error fault => exact ⟨rfl, rfl⟩

theorem keepsDepth_requireOperand (operator : Operator) (token : Token) :
    KeepsDepth depth (requireOperand operator token) := by
  unfold requireOperand
  refine .get_bind fun r => ?_
  split
  · exact keepsDepth_pure _
  · exact keepsDepth_blame _ _

end

/-! ## Chains and groups -/

section

variable {depth : Nat} {rule rule' : Rule Expr}

theorem SameAt.chainFrom (h : SameAt depth rule rule') (level : Level) (left : Expr) (height : Nat) :
    SameAt depth (chainFrom level rule left height) (chainFrom level rule' left height) := by
  induction hleft : depthLimit - height using Nat.strongRecOn generalizing left height with
  | _ n ih =>
  rw [Reader.chainFrom, Reader.chainFrom]
  refine .get_bind fun r => ?_
  split
  · exact keepsDepth_record _ _
  · refine keepsDepth_advance.bind fun token => ?_
    refine (keepsDepth_requireOperand _ _).bind fun _ => ?_
    refine h.bind fun right => .get_bind fun s => ?_
    dsimp only
    split
    · exact ih _ (by omega) _ _ rfl
    · exact keepsDepth_blame _ _

theorem SameAt.chain (h : SameAt depth rule rule') (level : Level) :
    SameAt depth (chain level rule) (chain level rule') :=
  h.bind fun left => .get_bind fun _ => h.chainFrom level left _

theorem keepsDepth_number : KeepsDepth depth number := by
  refine keepsDepth_advance.bind fun token => ?_
  cases token.value with
  | none => exact keepsDepth_blame _ _
  | some value => exact keepsDepth_record _ _

theorem keepsDepth_close (opening : Token) (e : Expr) :
    KeepsDepth depth
      (do
        if (← get).current.kind = .rightParen then
          let closing ← advance
          return e.withSpan (opening.span.cover closing.span)
        else
          blame .unclosedGroup (← get).missingSpan) := by
  refine .get_bind fun r => ?_
  split
  · exact keepsDepth_advance.bind fun closing => keepsDepth_pure _
  · exact .get_bind fun s => keepsDepth_blame _ _

/-- A group is read alike if what stands in it is, where one more group is open. -/
theorem SameAt.groupBody (h : SameAt (depth + 1) rule rule') (opening : Token) :
    SameAt depth (groupBody rule opening) (groupBody rule' opening) := by
  unfold Reader.groupBody
  refine .get_bind fun r => ?_
  split
  · exact .get_bind fun s u hu => relates_blame_bind ⟨rfl, rfl⟩
  · intro s hs
    refine relates_modify (Relates.bind (h s.deeper (congrArg (· + 1) hs)) ?_)
    rintro _ e _ u ⟨rfl, rfl, hu⟩
    have hshallower : u.shallower.groupDepth = depth := Nat.sub_eq_of_eq_add hu
    exact relates_modify (keepsDepth_close opening e u.shallower hshallower)

/-- The levels of groups that are left and the groups that are open stop a group at the same place. -/
theorem sameAt_factor {levels : Nat} (hlevels : depthLimit - depth = levels)
    (hinner : ∀ below, levels = below + 1 → SameAt (depth + 1) (expressionWithin below) rule) :
    SameAt depth (factor (inner levels)) (countedFactor rule) := by
  unfold factor countedFactor
  refine .get_bind fun r => ?_
  dsimp only
  cases r.current.kind with
  | integer => exact keepsDepth_number
  | leftParen =>
    intro s hs
    refine Relates.bind (keepsDepth_advance s hs) ?_
    rintro _ opening _ u ⟨rfl, rfl, hu⟩
    refine relates_get ?_
    cases levels with
    | zero =>
      rw [if_pos (by omega)]
      exact keepsDepth_blame _ _ u hu
    | succ below =>
      rw [if_neg (by omega)]
      exact (hinner below rfl).groupBody opening u hu
  | _ => exact keepsDepth_blame _ _

end

/-! ## Expressions -/

theorem sameAt_expressionWithin {levels depth : Nat} (hlevels : depthLimit - depth = levels) :
    SameAt depth (expressionWithin levels)
      (chain .sum (chain .product (countedFactor expression))) := by
  induction levels using Nat.strongRecOn generalizing depth with
  | _ levels ih =>
  rw [expressionWithin_eq]
  refine ((sameAt_factor hlevels fun below hbelow => ?_).chain .product).chain .sum
  -- with one more group open, the levels of an expression are those that are left below
  have hleft : depthLimit - (depth + 1) = below := by omega
  refine (ih below (by omega) hleft).congr_right fun r hr => ?_
  rw [← hleft, ← hr]
  rfl

/-- An expression is read as by the recursion in which a group counts the groups that are open, and fails
where there are `depthLimit` of them. -/
theorem expression_eq : expression = chain .sum (chain .product (countedFactor expression)) := by
  funext r
  exact (sameAt_expressionWithin rfl).apply_eq rfl

end Reader

end Calculator
