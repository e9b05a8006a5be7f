import Calculator.Proofs.Reader.Soundness

/-!
# Two runs side by side

Many laws compare two runs of the same rules: over texts that differ in their blanks, at two offsets of
one text, or with and without something that watches the run. `Relates` is the judgement for them, a
relational counterpart of `Ensures`: two rules both give a result or both fail, and the results, faults
and readers behind them are related.

A `Simulation` lists what has to be known of single steps. Its laws speak of one token or of one node
each. `Simulation.expressionAround_relates` derives from them that whole rules are related, by induction
on the levels of groups that are left and, within a chain, on the height that is left.
-/

namespace Calculator

namespace Reader

open Grammar

/-! ## The judgement -/

/-- Two rules end alike, both with a result or both with a fault, and what they end with is related. -/
def Relates {α β : Type} (rule : Rule α) (rule' : Rule β) (r r' : Reader)
    (onResults : α → β → Reader → Reader → Prop)
    (onFaults : Fault → Fault → Reader → Reader → Prop) : Prop :=
  match rule r, rule' r' with
  | .ok a s, .ok a' s' => onResults a a' s s'
  | .error fault s, .error fault' s' => onFaults fault fault' s s'
  | _, _ => False

section

variable {α α' β β' : Type} {r r' : Reader} {P P' : α → α' → Reader → Reader → Prop}
  {Q : β → β' → Reader → Reader → Prop} {E E' : Fault → Fault → Reader → Reader → Prop}

/-- Rules that end alike both give a result or both fail. -/
theorem Relates.cases {rule : Rule α} {rule' : Rule α'} (h : Relates rule rule' r r' P E) :
    (∃ a s a' s', rule r = .ok a s ∧ rule' r' = .ok a' s' ∧ P a a' s s') ∨
      ∃ fault s fault' s', rule r = .error fault s ∧ rule' r' = .error fault' s' ∧
        E fault fault' s s' := by
  unfold Relates at h
  split at h
  · next a s a' s' hrule hrule' => exact Or.inl ⟨a, s, a', s', hrule, hrule', h⟩
  · next fault s fault' s' hrule hrule' => exact Or.inr ⟨fault, s, fault', s', hrule, hrule', h⟩
  · exact h.elim

theorem Relates.of_ok {rule : Rule α} {rule' : Rule α'} (h : Relates rule rule' r r' P E) {a : α}
    {s : Reader} (hrule : rule r = .ok a s) : ∃ a' s', rule' r' = .ok a' s' ∧ P a a' s s' := by
  rcases h.cases with ⟨_, _, a', s', hresult, hrule', hP⟩ | ⟨_, _, _, _, hfault, -⟩
  · obtain ⟨rfl, rfl⟩ := EStateM.Result.ok.inj (hrule.symm.trans hresult)
    exact ⟨a', s', hrule', hP⟩
  · cases hrule.symm.trans hfault

theorem Relates.of_error {rule : Rule α} {rule' : Rule α'} (h : Relates rule rule' r r' P E)
    {fault : Fault} {s : Reader} (hrule : rule r = .error fault s) :
    ∃ fault' s', rule' r' = .error fault' s' ∧ E fault fault' s s' := by
  rcases h.cases with ⟨_, _, _, _, hresult, -⟩ | ⟨_, _, fault', s', hfault, hrule', hE⟩
  · cases hrule.symm.trans hresult
  · obtain ⟨rfl, rfl⟩ := EStateM.Result.error.inj (hrule.symm.trans hfault)
    exact ⟨fault', s', hrule', hE⟩

theorem relates_of_ok {rule : Rule α} {rule' : Rule α'} {a : α} {a' : α'} {s s' : Reader}
    (hrule : rule r = .ok a s) (hrule' : rule' r' = .ok a' s') (h : P a a' s s') :
    Relates rule rule' r r' P E := by
  rw [Relates, hrule, hrule']
  exact h

theorem relates_of_error {rule : Rule α} {rule' : Rule α'} {fault fault' : Fault} {s s' : Reader}
    (hrule : rule r = .error fault s) (hrule' : rule' r' = .error fault' s')
    (h : E fault fault' s s') : Relates rule rule' r r' P E := by
  rw [Relates, hrule, hrule']
  exact h

theorem Relates.bind {rule : Rule α} {rule' : Rule α'} {next : α → Rule β} {next' : α' → Rule β'}
    (h : Relates rule rule' r r' P E)
    (hnext : ∀ a a' s s', P a a' s s' → Relates (next a) (next' a') s s' Q E) :
    Relates (rule >>= next) (rule' >>= next') r r' Q E := by
  show Relates (EStateM.bind rule next) (EStateM.bind rule' next') r r' Q E
  rcases h.cases with ⟨a, s, a', s', hrule, hrule', hP⟩ | ⟨fault, s, fault', s', hrule, hrule', hE⟩
  · rw [Relates, EStateM.bind, EStateM.bind, hrule, hrule']
    exact hnext a a' s s' hP
  · rw [Relates, EStateM.bind, EStateM.bind, hrule, hrule']
    exact hE

theorem Relates.mono {rule : Rule α} {rule' : Rule α'} (h : Relates rule rule' r r' P E)
    (hresults : ∀ a a' s s', P a a' s s' → P' a a' s s')
    (hfaults : ∀ f f' s s', E f f' s s' → E' f f' s s') : Relates rule rule' r r' P' E' := by
  rcases h.cases with ⟨a, s, a', s', hrule, hrule', hP⟩ | ⟨fault, s, fault', s', hrule, hrule', hE⟩
  · exact relates_of_ok hrule hrule' (hresults _ _ _ _ hP)
  · exact relates_of_error hrule hrule' (hfaults _ _ _ _ hE)

theorem relates_get {next next' : Reader → Rule β} {Q : β → β → Reader → Reader → Prop}
    (h : Relates (next r) (next' r') r r' Q E) :
    Relates (get >>= next) (get >>= next') r r' Q E := h

theorem relates_modify {f f' : Reader → Reader} {next next' : PUnit → Rule β}
    {Q : β → β → Reader → Reader → Prop} (h : Relates (next ⟨⟩) (next' ⟨⟩) (f r) (f' r') Q E) :
    Relates (modify f >>= next) (modify f' >>= next') r r' Q E := h

theorem relates_pure {a : α} {a' : α'} (h : P a a' r r') : Relates (pure a) (pure a') r r' P E := h

theorem relates_blame {cause : Cause} {span span' : Span} (h : E ⟨cause, span⟩ ⟨cause, span'⟩ r r') :
    Relates (blame cause span) (blame cause span') r r' P E := h

theorem relates_blame_bind {cause : Cause} {span span' : Span} {next next' : α → Rule β}
    {Q : β → β → Reader → Reader → Prop} (h : E ⟨cause, span⟩ ⟨cause, span'⟩ r r') :
    Relates (blame cause span >>= next) (blame cause span' >>= next') r r' Q E := h

theorem relates_record {height height' : Nat} {e e' : Expr} {P : Expr → Expr → Reader → Reader → Prop}
    (h : P e e' { r with height } { r' with height := height' }) :
    Relates (record height e) (record height' e') r r' P E := h

end

/-! ## Groups -/

/-- The reader with one more group counted as open. -/
def deeper (r : Reader) : Reader := { r with groupDepth := r.groupDepth + 1 }

/-- The reader with one group less counted as open. -/
def shallower (r : Reader) : Reader := { r with groupDepth := r.groupDepth - 1 }

/-- Expressions in which groups nest up to so many levels, where the expression in a group is not read
by itself but with something around it. What is around it starts right after the group has been counted
and ends right before the group is no longer counted. -/
def expressionAround (around : Rule Expr → Rule Expr) : Nat → Rule Expr
  | 0 => chain .sum (chain .product (factor none))
  | levels + 1 =>
    chain .sum (chain .product (factor (some (around (expressionAround around levels)))))

theorem expressionAround_id (levels : Nat) : expressionAround id levels = expressionWithin levels := by
  induction levels with
  | zero => rfl
  | succ levels ih => rw [expressionAround, ih]; rfl

/-! ## Simulations -/

/-- What two runs keep between them. The relations on readers say how many levels of groups are left;
`before` holds where a rule starts and `behind` where a token has been taken. -/
structure Simulation (around : Rule Expr → Rule Expr) where
  before : Nat → Reader → Reader → Prop
  behind : Nat → Reader → Reader → Prop
  tokens : Token → Token → Prop
  spans : Span → Span → Prop
  exprs : Expr → Expr → Prop
  failed : Nat → Fault → Fault → Reader → Reader → Prop
  before_of_behind : ∀ {k r r'}, behind k r r' → before k r r'
  kind_eq : ∀ {k r r'}, before k r r' → r'.current.kind = r.current.kind
  lexeme_eq : ∀ {k r r'}, before k r r' → r'.current.lexeme = r.current.lexeme
  current_span : ∀ {k r r'}, before k r r' → spans r.current.span r'.current.span
  current : ∀ {k r r'}, before k r r' → r.current.kind ≠ .endOfInput → tokens r.current r'.current
  missing : ∀ {k} {r r' : Reader}, behind k r r' → spans r.missingSpan r'.missingSpan
  value_eq : ∀ {t t'}, tokens t t' → t'.value = t.value
  token_span : ∀ {t t'}, tokens t t' → spans t.span t'.span
  cover : ∀ {t t' u u'}, tokens t t' → tokens u u' → spans (t.span.cover u.span) (t'.span.cover u'.span)
  numbers : ∀ {t t'} (value : Word), tokens t t' → exprs (.number value t.span) (.number value t'.span)
  groups : ∀ {t t' u u' e e'}, tokens t t' → exprs e e' → tokens u u' →
    exprs (e.withSpan (t.span.cover u.span)) (e'.withSpan (t'.span.cover u'.span))
  joins : ∀ {l l' e e'} (operator : Operator), exprs l l' → exprs e e' →
    (Expr.join l operator e).height ≤ depthLimit →
    exprs (.join l operator e) (.join l' operator e')
  height_eq : ∀ {e e'}, exprs e e' → e'.height = e.height
  /-- A token is taken by both, or what follows it is no token in both. -/
  advances : ∀ {k r r'}, before k r r' → r.current.kind ≠ .endOfInput →
    Relates advance advance r r'
      (fun token token' s s' => token = r.current ∧ token' = r'.current ∧ behind k s s' ∧
        s.height = r.height ∧ s'.height = r'.height)
      (failed k)
  /-- Both may record the same height. -/
  records : ∀ {k} {r r' : Reader} (height : Nat), behind k r r' →
    behind k { r with height } { r' with height }
  deepens : ∀ {k} {r r' : Reader}, behind (k + 1) r r' → behind k r.deeper r'.deeper
  /-- The group that is left behind was entered by readers with one level more. -/
  surfaces : ∀ {k} {r r' s s' : Reader}, behind (k + 1) r r' → behind k s s' →
    behind (k + 1) s.shallower s'.shallower
  /-- A fault of grammar leaves the readers where they are. -/
  blames : ∀ {k r r' cause span span'}, before k r r' → cause.kind = .grammar → spans span span' →
    failed k ⟨cause, span⟩ ⟨cause, span'⟩ r r'
  /-- What is around the expression in a group keeps the runs together, also behind a fault. -/
  surrounds : ∀ {k} {r r' : Reader} {rule rule'}, behind k r.deeper r'.deeper →
    Relates rule rule' r.deeper r'.deeper
      (fun e e' s s' => exprs e e' ∧ behind k s s' ∧ s.height = e.height ∧ s'.height = e'.height)
      (failed k) →
    Relates rule (around rule') r.deeper r'.deeper
      (fun e e' s s' => exprs e e' ∧ behind k s s' ∧ s.height = e.height ∧ s'.height = e'.height)
      (failed (k + 1))

namespace Simulation

variable {around : Rule Expr → Rule Expr} (sim : Simulation around)

/-- Two expressions have been read, and their heights are recorded. -/
def Read (k : Nat) (e e' : Expr) (r r' : Reader) : Prop :=
  sim.exprs e e' ∧ sim.behind k r r' ∧ r.height = e.height ∧ r'.height = e'.height

/-- Two rules read related expressions wherever an expression has to start. -/
def Operands (k : Nat) (rule rule' : Rule Expr) : Prop :=
  ∀ r r', sim.before k r r' → Relates rule rule' r r' (sim.Read k) (sim.failed k)

variable {sim} {k : Nat} {r r' : Reader}

/-! ### Chains -/

theorem requireOperand_relates {operator : Operator} {token token' : Token}
    (hr : sim.behind k r r') (htoken : sim.tokens token token') :
    Relates (requireOperand operator token) (requireOperand operator token') r r'
      (fun _ _ s s' => s = r ∧ s' = r') (sim.failed k) := by
  have hbefore := sim.before_of_behind hr
  unfold requireOperand
  refine relates_get ?_
  rw [sim.kind_eq hbefore]
  cases r.current.kind.startsOperand with
  | true => exact relates_pure ⟨rfl, rfl⟩
  | false => exact relates_blame (sim.blames hbefore rfl (sim.token_span htoken))

/-- The loop of a chain, behind what both have read of it. -/
theorem chainFrom_relates {level : Level} {operand operand' : Rule Expr}
    (hoperand : sim.Operands k operand operand') {l l' : Expr} (hl : sim.exprs l l')
    (hr : sim.behind k r r') :
    Relates (chainFrom level operand l l.height) (chainFrom level operand' l' l'.height) r r'
      (sim.Read k) (sim.failed k) := by
  -- as for a single run, each join raises the height, which the limit bounds
  induction hleft : depthLimit - l.height using Nat.strongRecOn generalizing l l' r r' with
  | _ n ih =>
  have hbefore := sim.before_of_behind hr
  rw [chainFrom, chainFrom]
  refine relates_get ?_
  rw [sim.kind_eq hbefore]
  cases hnext : r.current.kind.operatorAt? level with
  | none =>
    rw [sim.height_eq hl]
    exact relates_record ⟨hl, sim.records _ hr, rfl, (sim.height_eq hl).symm⟩
  | some operator =>
    obtain ⟨hkind, -⟩ := operatorAt?_eq_some_iff.mp hnext
    have hmore : r.current.kind ≠ .endOfInput := by simp [hkind]
    have htoken := sim.current hbefore hmore
    refine Relates.bind (sim.advances hbefore hmore) ?_
    rintro _ _ s s' ⟨rfl, rfl, hs, -, -⟩
    refine Relates.bind (requireOperand_relates hs htoken) ?_
    rintro _ _ s s' ⟨rfl, rfl⟩
    refine Relates.bind (hoperand _ _ (sim.before_of_behind hs)) ?_
    rintro right right' s s' ⟨hright, hs, hheight, hheight'⟩
    refine relates_get ?_
    rw [hheight, hheight', sim.height_eq hl, sim.height_eq hright]
    dsimp only
    split
    · next hwithin =>
      have hjoined := sim.joins operator hl hright hwithin
      have hrest := ih _ (by rw [← hleft, Expr.height_join]; omega) hjoined hs rfl
      rwa [Expr.height_join, Expr.height_join, sim.height_eq hl, sim.height_eq hright] at hrest
    · exact relates_blame
        (sim.blames (sim.before_of_behind hs) rfl (sim.token_span htoken))

theorem chain_relates {level : Level} {operand operand' : Rule Expr}
    (hoperand : sim.Operands k operand operand') :
    sim.Operands k (chain level operand) (chain level operand') := by
  intro r r' hr
  refine Relates.bind (hoperand r r' hr) ?_
  rintro left left' s s' ⟨hleft, hs, hheight, hheight'⟩
  refine relates_get ?_
  rw [hheight, hheight']
  exact chainFrom_relates hoperand hleft hs

/-! ### Factors -/

theorem number_relates (hr : sim.before k r r') (hkind : r.current.kind = .integer) :
    Relates number number r r' (sim.Read k) (sim.failed k) := by
  have hmore : r.current.kind ≠ .endOfInput := by simp [hkind]
  have htoken := sim.current hr hmore
  refine Relates.bind (sim.advances hr hmore) ?_
  rintro _ _ s s' ⟨rfl, rfl, hs, -, -⟩
  rw [sim.value_eq htoken]
  cases r.current.value with
  | none => exact relates_blame (sim.blames (sim.before_of_behind hs) rfl (sim.token_span htoken))
  | some value => exact relates_record ⟨sim.numbers value htoken, sim.records _ hs, rfl, rfl⟩

/-- Behind the expression in a group, both groups are closed or neither is. -/
theorem close_relates {opening opening' : Token} {e e' : Expr} (hopening : sim.tokens opening opening')
    (he : sim.exprs e e') (hr : sim.behind k r r') (hheight : r.height = e.height)
    (hheight' : r'.height = e'.height) :
    Relates
      (do
        if (← get).current.kind = .rightParen then
          let closing ← advance
          return e.withSpan (opening.span.cover closing.span)
        else
          blame .unclosedGroup (← get).missingSpan)
      (do
        if (← get).current.kind = .rightParen then
          let closing ← advance
          return e'.withSpan (opening'.span.cover closing.span)
        else
          blame .unclosedGroup (← get).missingSpan)
      r r' (sim.Read k) (sim.failed k) := by
  have hbefore := sim.before_of_behind hr
  refine relates_get ?_
  rw [sim.kind_eq hbefore]
  split
  · next hclosing =>
    have hmore : r.current.kind ≠ .endOfInput := by simp [hclosing]
    refine Relates.bind (sim.advances hbefore hmore) ?_
    rintro _ _ s s' ⟨rfl, rfl, hs, hsame, hsame'⟩
    refine relates_pure ⟨sim.groups hopening he (sim.current hbefore hmore), hs, ?_, ?_⟩
    · rw [hsame, hheight, Expr.height_withSpan]
    · rw [hsame', hheight', Expr.height_withSpan]
  · refine relates_get ?_
    exact relates_blame (sim.blames hbefore rfl (sim.missing hr))

theorem groupBody_relates {inner inner' : Rule Expr} {opening opening' : Token}
    (hinner : ∀ r r' : Reader, sim.behind k r.deeper r'.deeper →
      Relates inner inner' r.deeper r'.deeper (sim.Read k) (sim.failed (k + 1)))
    (hopening : sim.tokens opening opening') (hr : sim.behind (k + 1) r r') :
    Relates (groupBody inner opening) (groupBody inner' opening') r r' (sim.Read (k + 1))
      (sim.failed (k + 1)) := by
  have hbefore := sim.before_of_behind hr
  unfold groupBody
  refine relates_get ?_
  rw [sim.kind_eq hbefore]
  split
  · next hclosing =>
    have hmore : r.current.kind ≠ .endOfInput := by simp [hclosing]
    refine relates_get ?_
    exact relates_blame_bind (sim.blames hbefore rfl (sim.cover hopening (sim.current hbefore hmore)))
  · refine relates_modify ?_
    refine Relates.bind (hinner r r' (sim.deepens hr)) ?_
    rintro e e' s s' ⟨he, hs, hheight, hheight'⟩
    refine relates_modify ?_
    exact close_relates hopening he (sim.surfaces hr hs) hheight hheight'

/-- The rule for what stands in a group, if there may be one more, with something around it. -/
def innerAround (around : Rule Expr → Rule Expr) : Nat → Option (Rule Expr)
  | 0 => none
  | levels + 1 => some (around (expressionAround around levels))

theorem expressionAround_eq (levels : Nat) :
    expressionAround around levels =
      chain .sum (chain .product (factor (innerAround around levels))) := by
  cases levels <;> rfl

theorem group_relates
    (hinner : ∀ below, k = below + 1 →
      sim.Operands below (expressionWithin below) (expressionAround around below))
    (hr : sim.before k r r') (hkind : r.current.kind = .leftParen) :
    Relates (group (inner k)) (group (innerAround around k)) r r' (sim.Read k) (sim.failed k) := by
  have hmore : r.current.kind ≠ .endOfInput := by simp [hkind]
  have htoken := sim.current hr hmore
  refine Relates.bind (sim.advances hr hmore) ?_
  rintro _ _ s s' ⟨rfl, rfl, hs, -, -⟩
  cases k with
  | zero => exact relates_blame (sim.blames (sim.before_of_behind hs) rfl (sim.token_span htoken))
  | succ below =>
    refine groupBody_relates (fun u u' hu => ?_) htoken hs
    exact sim.surrounds hu (hinner below rfl _ _ (sim.before_of_behind hu))

theorem factor_relates
    (hinner : ∀ below, k = below + 1 →
      sim.Operands below (expressionWithin below) (expressionAround around below)) :
    sim.Operands k (factor (inner k)) (factor (innerAround around k)) := by
  intro r r' hr
  unfold factor
  refine relates_get ?_
  dsimp only
  rw [sim.kind_eq hr, sim.lexeme_eq hr]
  split
  · next hkind => exact number_relates hr hkind
  · next hkind => exact group_relates hinner hr hkind
  · exact relates_blame (sim.blames hr rfl (sim.current_span hr))
  · exact relates_blame (sim.blames hr rfl (sim.current_span hr))

/-! ### Expressions -/

/-- Two runs over expressions stay together. -/
theorem expressionAround_relates (sim : Simulation around) (levels : Nat) :
    sim.Operands levels (expressionWithin levels) (expressionAround around levels) := by
  have hchains : ∀ levels, sim.Operands levels (factor (inner levels))
      (factor (innerAround around levels)) →
      sim.Operands levels (expressionWithin levels) (expressionAround around levels) := by
    intro levels hfactor
    rw [expressionWithin_eq, expressionAround_eq]
    exact chain_relates (chain_relates hfactor)
  induction levels with
  | zero => exact hchains 0 (factor_relates fun below h => absurd h.symm (Nat.succ_ne_zero below))
  | succ levels ih => exact hchains _ (factor_relates fun below h => Nat.succ.inj h ▸ ih)

end Simulation

end Reader

end Calculator
