import Calculator.Proofs.Reader.Steps

/-!
# What the rules read

Whatever a rule returns, the tokens that it took derive it (`Reading`), within the limits, and the
token it stopped at does not go on with it. Whenever a rule fails, the tokens up to the fault are
admitted and the fault is the one of the next item, or a limit (`Standing.FailsFrom`).

`Meets` states both of a rule at once. It goes from factors to chains of them and from chains to
groups, by induction on the levels of groups that are left.
-/

namespace Calculator

namespace Reader

open Grammar

/-- A reader has read an expression, from one scanner to another. -/
structure Reading (s : Scanner) (nonterminal : Nonterminal) (levels depth : Nat)
    (tokens : List Token) (s' : Scanner) (e : Expr) (r : Reader) : Prop where
  reads : s.Reads tokens s'
  at_end : r.At s'
  derives : Derives nonterminal tokens e
  nests : NestsWithin levels 0 tokens
  previousEnd_eq : ∀ last, tokens.getLast? = some last → r.previousEnd = last.span.stop
  height_le : e.height ≤ depthLimit
  groupDepth_eq : r.groupDepth = depth

/-- A token of this kind does not go on with what was read. -/
def Settled : Nonterminal → Token.Kind → Prop
  | .factor, _ => True
  | .term, kind => kind.operatorAt? .product = none
  | .expression, kind => kind.operatorAt? .product = none ∧ kind.operatorAt? .sum = none

/-- An operand has to come, and if the token starts none, the token itself is blamed for it. -/
structure Ready (t : Standing) (token : Token) : Prop where
  expects : t.ExpectsOperand
  blames : token.kind.startsOperand = false → complaint t.last (0 < t.depth) token = noOperand token

/-- A rule reads what a nonterminal derives, or fails where the grammar does. -/
def Meets (rule : Rule Expr) (nonterminal : Nonterminal) (levels : Nat) : Prop :=
  ∀ t s r, r.At s → Ready t r.current →
    Ensures rule r
      (fun e r' => ∃ tokens s', Reading s nonterminal levels r.groupDepth tokens s' e r' ∧
        r'.height = e.height ∧ Settled nonterminal r'.current.kind)
      (t.FailsFrom s)

/-! ## Readings -/

theorem Reading.run {s s' : Scanner} {nonterminal : Nonterminal} {levels depth : Nat}
    {tokens : List Token} {e : Expr} {r : Reader}
    (h : Reading s nonterminal levels depth tokens s' e r) {t : Standing} (ht : t.ExpectsOperand) :
    ∃ last, tokens.getLast? = some last ∧ endsOperand last.kind = true ∧
      r.previousEnd = last.span.stop ∧ t.Run tokens ⟨some last, t.depth⟩ := by
  obtain ⟨last, hlast, hends, hrun⟩ := h.derives.run ht
  exact ⟨last, hlast, hends, h.previousEnd_eq last hlast, hrun⟩

theorem Reading.ofOperand {s s' : Scanner} {level : Level} {levels depth : Nat}
    {tokens : List Token} {e : Expr} {r : Reader}
    (h : Reading s (.operand level) levels depth tokens s' e r) :
    Reading s (.chain level) levels depth tokens s' e r :=
  { h with derives := h.derives.ofOperand }

/-- Two readings with an operator between them. -/
theorem Reading.join {s s₁ s₂ s' : Scanner} {level : Level} {levels depth : Nat}
    {ls rs : List Token} {token : Token} {operator : Operator} {l r : Expr} {before after : Reader}
    (left : Reading s (.chain level) levels depth ls s₁ l before)
    (hkind : token.kind = .operator operator) (hlevel : operator.level = level)
    (htoken : s₁.Reads [token] s₂)
    (right : Reading s₂ (.operand level) levels depth rs s' r after)
    (hheight : max l.height r.height + 1 ≤ depthLimit) :
    Reading s (.chain level) levels depth (ls ++ token :: rs) s' (.join l operator r) after where
  reads := left.reads.append (htoken.append right.reads)
  at_end := right.at_end
  derives := left.derives.join hkind hlevel right.derives
  nests := (left.derives.nestsWithin_join hkind levels 0).mpr ⟨left.nests, right.nests⟩
  previousEnd_eq := by
    intro last hlast
    obtain ⟨last', hlast', -⟩ := right.derives.run Standing.expectsOperand_start
    have hsame : (ls ++ token :: rs).getLast? = some last' := by
      simp [List.getLast?_append, List.getLast?_cons, hlast']
    -- the last token of both parts is that of the right one, which is never empty
    obtain rfl := Option.some.inj (hsame.symm.trans hlast)
    exact right.previousEnd_eq _ hlast'
  height_le := hheight
  groupDepth_eq := right.groupDepth_eq

/-- A reading between parentheses. -/
theorem Reading.group {s s₁ s₂ s' : Scanner} {levels depth depth' : Nat} {tokens : List Token}
    {opening closing : Token} {e : Expr} {before after : Reader}
    (hopening : opening.kind = .leftParen) (hopened : s.Reads [opening] s₁)
    (inner : Reading s₁ .expression levels depth tokens s₂ e before)
    (hclosing : closing.kind = .rightParen) (hclosed : s₂.Reads [closing] s') (hat : after.At s')
    (hend : after.previousEnd = closing.span.stop) (hdepth : after.groupDepth = depth') :
    Reading s .factor (levels + 1) depth' (opening :: (tokens ++ [closing])) s'
      (e.withSpan (opening.span.cover closing.span)) after where
  reads := hopened.append (inner.reads.append hclosed)
  at_end := hat
  derives := .group hopening inner.derives hclosing
  nests := (inner.derives.nestsWithin_group hopening hclosing levels).mpr inner.nests
  previousEnd_eq := by
    intro last hlast
    rw [← List.cons_append, List.getLast?_concat] at hlast
    obtain rfl := Option.some.inj hlast
    exact hend
  height_le := by rw [Expr.height_withSpan]; exact inner.height_le
  groupDepth_eq := hdepth

theorem operatorAt?_eq_some_iff {kind : Token.Kind} {level : Level} {operator : Operator} :
    kind.operatorAt? level = some operator ↔ kind = .operator operator ∧ operator.level = level := by
  cases kind with
  | operator other =>
    simp only [Token.Kind.operatorAt?, Token.Kind.operator.injEq]
    constructor
    · intro h
      split at h
      · next hlevel =>
        obtain rfl := Option.some.inj h
        exact ⟨rfl, hlevel⟩
      · cases h
    · rintro ⟨rfl, hlevel⟩
      rw [if_pos hlevel]
  | _ => simp [Token.Kind.operatorAt?]

theorem Settled.chain {level : Level} {kind : Token.Kind} (h : Settled (.operand level) kind)
    (hnone : kind.operatorAt? level = none) : Settled (.chain level) kind := by
  cases level with
  | sum => exact ⟨h, hnone⟩
  | product => exact hnone

/-- No operator goes on with a whole expression. -/
theorem Settled.ne_operator {kind : Token.Kind} (h : Settled .expression kind)
    (operator : Operator) : kind ≠ .operator operator := by
  rintro rfl
  obtain ⟨hproduct, hsum⟩ := h
  cases operator <;> simp [Token.Kind.operatorAt?, Operator.level] at hproduct hsum

theorem ready_of_startsOperand {t : Standing} {token : Token} (ht : t.ExpectsOperand)
    (hkind : token.kind.startsOperand = true) : Ready t token :=
  ⟨ht, fun h => absurd h (by simp [hkind])⟩

/-- Behind the opening parenthesis of a group that is not empty, what is wrong is reported as it is
elsewhere. -/
theorem ready_of_leftParen {opening token : Token} {depth : Nat} (hkind : opening.kind = .leftParen)
    (hnonempty : token.kind ≠ .rightParen) : Ready ⟨some opening, depth⟩ token := by
  refine ⟨Standing.expectsOperand_leftParen hkind, fun _ => ?_⟩
  simp [complaint, hkind, hnonempty]

/-! ## Chains -/

theorem requireOperand_ensures {r : Reader} {s : Scanner} {t : Standing} {token : Token}
    {operator : Operator} (hat : r.At s) (hkind : token.kind = .operator operator)
    (hlast : t.last = some token) :
    Ensures (requireOperand operator token) r
      (fun _ r' => r' = r ∧ r.current.kind.startsOperand = true) (t.FailsFrom s) := by
  unfold requireOperand
  refine ensures_get ?_
  cases hstarts : r.current.kind.startsOperand with
  | true => exact ensures_pure ⟨rfl, rfl⟩
  | false =>
    refine ensures_blame ?_
    -- behind an operator, the grammar blames the operator for whatever does not start an operand
    have ht : t.ExpectsOperand := by
      intro last h
      obtain rfl := Option.some.inj (hlast.symm.trans h)
      simp [endsOperand, hkind]
    have hrefused := Standing.Refuses.grammar (congrArg Prod.fst hat)
      (Standing.not_admits_of_expectsOperand ht hstarts)
    have hcomplaint : complaint t.last (0 < t.depth) r.current =
        ⟨.missingOperand operator, token.span⟩ := by
      simp [complaint, hlast, hkind]
    exact (hcomplaint ▸ hrefused).failsFrom

/-- The loop of a chain, when a part of it has been read. -/
theorem chainFrom_ensures {level : Level} {operand : Rule Expr} {levels : Nat}
    (hoperand : Meets operand (.operand level) levels) {t : Standing} {s : Scanner}
    (ht : t.ExpectsOperand) {depth : Nat} {ls : List Token} {s₁ : Scanner} {l : Expr} {r : Reader}
    (left : Reading s (.chain level) levels depth ls s₁ l r)
    (hsettled : Settled (.operand level) r.current.kind) :
    Ensures (chainFrom level operand l l.height) r
      (fun e r' => ∃ tokens s', Reading s (.chain level) levels depth tokens s' e r' ∧
        r'.height = e.height ∧ Settled (.chain level) r'.current.kind)
      (t.FailsFrom s) := by
  -- each join raises the height, which the limit bounds
  induction hleft : depthLimit - l.height using Nat.strongRecOn generalizing ls s₁ l r with
  | _ n ih =>
  rw [chainFrom]
  refine ensures_get ?_
  cases hnext : r.current.kind.operatorAt? level with
  | none =>
    refine ensures_record ?_
    exact ⟨ls, s₁, { left with }, rfl, hsettled.chain hnext⟩
  | some operator =>
    obtain ⟨hkind, hlevel⟩ := operatorAt?_eq_some_iff.mp hnext
    have hmore : r.current.kind ≠ .endOfInput := by simp [hkind]
    -- what was read ends an operand, so the grammar admits the operator too
    obtain ⟨last, -, hends, -, hrun⟩ := left.run ht
    have hadmits : (⟨some last, t.depth⟩ : Standing).Admits r.current :=
      Standing.admits_operator hends hkind
    have htaken : s₁.Reads [r.current] r.scanner := .single left.at_end hmore
    have hreads := left.reads.append htaken
    have hbehind := hrun.append (.operator hends hkind)
    -- three rules follow, and the faults of each are found behind the tokens taken so far
    refine Ensures.bind
      ((advance_ensures_of_admits left.at_end hmore hadmits).after hrun left.reads) ?_
    rintro token r₁ ⟨rfl, hat, -, -, hdepth⟩
    refine Ensures.bind ((requireOperand_ensures hat hkind rfl).after hbehind hreads) ?_
    rintro _ r₁ ⟨rfl, hstarts⟩
    have hready : Ready ⟨some r.current, t.depth⟩ r₁.current :=
      ready_of_startsOperand (Standing.expectsOperand_operator hkind) hstarts
    refine Ensures.bind ((hoperand _ _ _ hat hready).after hbehind hreads) ?_
    rintro right r₂ ⟨rs, s₂, hright, hheight, hsettled'⟩
    rw [hdepth, left.groupDepth_eq] at hright
    refine ensures_get ?_
    rw [hheight]
    dsimp only
    split
    · next hwithin =>
      have hjoined := left.join hkind hlevel htaken hright hwithin
      exact ih _ (by rw [← hleft, Expr.height_join]; omega) hjoined hsettled' rfl
    · exact ensures_blame (Standing.Refuses.tooDeep _).failsFrom

/-- A chain of operands reads the chains of its level. -/
theorem chain_meets {level : Level} {operand : Rule Expr} {levels : Nat}
    (hoperand : Meets operand (.operand level) levels) :
    Meets (chain level operand) (.chain level) levels := by
  intro t s r hat hready
  refine Ensures.bind (hoperand t s r hat hready) ?_
  rintro left r₁ ⟨ls, s₁, hleft, hheight, hsettled⟩
  refine ensures_get ?_
  rw [hheight]
  exact chainFrom_ensures hoperand hready.expects hleft.ofOperand hsettled

/-! ## Factors -/

theorem number_ensures {t : Standing} {s : Scanner} {r : Reader} {levels : Nat} (hat : r.At s)
    (ht : t.ExpectsOperand) (hkind : r.current.kind = .integer) :
    Ensures number r
      (fun e r' => ∃ tokens s', Reading s .factor levels r.groupDepth tokens s' e r' ∧
        r'.height = e.height ∧ Settled .factor r'.current.kind)
      (t.FailsFrom s) := by
  have hmore : r.current.kind ≠ .endOfInput := by simp [hkind]
  have hadmits : t.Admits r.current := by
    simp [Standing.Admits, hkind, ht, hat.value_isSome hkind]
  refine Ensures.bind (advance_ensures_of_admits hat hmore hadmits) ?_
  rintro token r' ⟨rfl, hat', hend, -, hdepth⟩
  obtain ⟨value, hvalue⟩ := Option.isSome_iff_exists.mp (hat.value_isSome hkind)
  rw [hvalue]
  refine ensures_record ?_
  refine ⟨[r.current], r.scanner, ?_, rfl, trivial⟩
  exact {
    reads := .single hat hmore
    at_end := hat'
    derives := .number hkind hvalue
    nests := nestsWithin_cons.mpr ⟨by simp [hkind], nestsWithin_nil _ _⟩
    previousEnd_eq := by
      intro last hlast
      obtain rfl := Option.some.inj hlast
      exact hend
    height_le := by simp [Expr.height, depthLimit]
    groupDepth_eq := hdepth }

/-- Behind an expression in a group the group is closed, or what stands there instead is blamed. -/
theorem close_ensures {t : Standing} {s s' : Scanner} {levels depth : Nat} {tokens : List Token}
    {e : Expr} {r : Reader} (ht : t.ExpectsOperand) (hdepth : 0 < t.depth)
    (h : Reading s .expression levels depth tokens s' e r)
    (hsettled : Settled .expression r.current.kind) (opening : Token) :
    Ensures
      (do
        if (← get).current.kind = .rightParen then
          let closing ← advance
          return e.withSpan (opening.span.cover closing.span)
        else
          blame .unclosedGroup (← get).missingSpan)
      r
      (fun e' r' => ∃ closing s'', closing.kind = .rightParen ∧ s'.Reads [closing] s'' ∧
        r'.At s'' ∧ r'.previousEnd = closing.span.stop ∧ r'.height = r.height ∧
        r'.groupDepth = depth ∧ e' = e.withSpan (opening.span.cover closing.span))
      (t.FailsFrom s) := by
  obtain ⟨last, -, hends, hend, hrun⟩ := h.run ht
  refine ensures_get ?_
  split
  · next hclosing =>
    have hmore : r.current.kind ≠ .endOfInput := by simp [hclosing]
    have hadmits : (⟨some last, t.depth⟩ : Standing).Admits r.current := by
      simp [Standing.Admits, hclosing, Standing.expectsOperand_some, hends, hdepth]
    refine Ensures.bind ((advance_ensures_of_admits h.at_end hmore hadmits).after hrun h.reads) ?_
    rintro closing r' ⟨rfl, hat, hend', hheight, hdepth'⟩
    exact ensures_pure ⟨r.current, r.scanner, hclosing, .single h.at_end hmore, hat, hend', hheight,
      hdepth'.trans h.groupDepth_eq, rfl⟩
  · next hunclosed =>
    refine ensures_get ?_
    refine ensures_blame ?_
    -- no operator goes on with the expression, so only the parenthesis could have come
    have hnot := Standing.not_admits_of_endsOperand hends hsettled.ne_operator
      (fun hkind => absurd hkind hunclosed) (fun _ => hdepth)
    have hrefuses := Standing.Refuses.grammar (congrArg Prod.fst h.at_end) hnot
    rw [complaint_of_endsOperand hends, noContinuation, if_pos hdepth, ← hend] at hrefuses
    exact hrefuses.failsFrom.after hrun h.reads

theorem group_ensures {t : Standing} {s : Scanner} {r : Reader} {levels : Nat} {inner : Rule Expr}
    (hinner : Meets inner .expression levels) (hat : r.At s) (ht : t.ExpectsOperand)
    (hkind : r.current.kind = .leftParen) :
    Ensures (group (some inner)) r
      (fun e r' => ∃ tokens s', Reading s .factor (levels + 1) r.groupDepth tokens s' e r' ∧
        r'.height = e.height ∧ Settled .factor r'.current.kind)
      (t.FailsFrom s) := by
  have hmore : r.current.kind ≠ .endOfInput := by simp [hkind]
  have hadmits : t.Admits r.current := Standing.admits_leftParen ht hkind
  have hopened : t.Run [r.current] ⟨some r.current, t.depth + 1⟩ := .opening ht hkind
  have hopen : (⟨some r.current, t.depth + 1⟩ : Standing).ExpectsOperand :=
    Standing.expectsOperand_leftParen hkind
  have htaken : s.Reads [r.current] r.scanner := .single hat hmore
  refine Ensures.bind (advance_ensures_of_admits hat hmore hadmits) ?_
  rintro opening r₁ ⟨rfl, hat₁, -, -, hdepth₁⟩
  refine Ensures.after ?_ hopened htaken
  unfold groupBody
  refine ensures_get ?_
  split
  · next hclosing =>
    -- the group is empty
    refine ensures_get ?_
    refine ensures_blame_bind ?_
    have hstarts : r₁.current.kind.startsOperand = false := by simp [hclosing, Token.Kind.startsOperand]
    have hrefused := Standing.Refuses.grammar (congrArg Prod.fst hat₁)
      (Standing.not_admits_of_expectsOperand hopen hstarts)
    have hcomplaint : complaint (some r.current) (0 < t.depth + 1) r₁.current =
        ⟨.emptyGroup, r.current.span.cover r₁.current.span⟩ := by
      simp [complaint, hkind, hclosing]
    exact (hcomplaint ▸ hrefused).failsFrom
  · next hnonempty =>
    refine ensures_modify ?_
    refine Ensures.bind (hinner _ _ _ hat₁ (ready_of_leftParen hkind hnonempty)) ?_
    rintro e r₂ ⟨tokens, s', hreading, hheight, hsettled⟩
    have hback : r₂.groupDepth - 1 = r.groupDepth := by
      rw [hreading.groupDepth_eq]
      exact hdepth₁
    -- the reader behind the expression, with the group no longer counted
    have hreading' : Reading r.scanner .expression levels r.groupDepth tokens s' e
        { r₂ with groupDepth := r₂.groupDepth - 1 } := { hreading with groupDepth_eq := hback }
    refine ensures_modify ?_
    refine (close_ensures hopen (Nat.succ_pos _) hreading' hsettled r.current).mono ?_
    rintro e' r' ⟨closing, s'', hclosing, hclosed, hat', hend, hheight', hdepth', rfl⟩
    refine ⟨_, s'', hreading'.group hkind htaken hclosing hclosed hat' hend hdepth', ?_, trivial⟩
    rw [hheight', Expr.height_withSpan]
    exact hheight

/-- The rule for what stands in a group, if there may be one more. -/
def inner : Nat → Option (Rule Expr)
  | 0 => none
  | levels + 1 => some (expressionWithin levels)

theorem expressionWithin_eq (levels : Nat) :
    expressionWithin levels = chain .sum (chain .product (factor (inner levels))) := by
  cases levels <;> rfl

theorem factor_meets {levels : Nat}
    (hinner : ∀ below, levels = below + 1 → Meets (expressionWithin below) .expression below) :
    Meets (factor (inner levels)) .factor levels := by
  intro t s r hat hready
  have hrefused : r.current.kind.startsOperand = false → t.FailsFrom s (noOperand r.current) := by
    intro hstarts
    have hrefuses := Standing.Refuses.grammar (congrArg Prod.fst hat)
      (Standing.not_admits_of_expectsOperand hready.expects hstarts)
    exact (hready.blames hstarts ▸ hrefuses).failsFrom
  unfold factor
  refine ensures_get ?_
  dsimp only
  split
  · next hkind => exact number_ensures hat hready.expects hkind
  · next hkind =>
    cases levels with
    | zero =>
      -- the grammar admits the parenthesis, but there is no level left for the group
      have hmore : r.current.kind ≠ .endOfInput := by simp [hkind]
      have hadmits : t.Admits r.current := Standing.admits_leftParen hready.expects hkind
      refine Ensures.bind (advance_ensures_of_admits hat hmore hadmits) ?_
      intro opening r' _
      exact ensures_blame (Standing.Refuses.tooDeep _).failsFrom
    | succ below => exact group_ensures (hinner below rfl) hat hready.expects hkind
  · next hkind =>
    refine ensures_blame ?_
    have hfault := hrefused (by simp [hkind, Token.Kind.startsOperand])
    rwa [noOperand, if_pos hkind] at hfault
  · next hinteger hopening hend =>
    refine ensures_blame ?_
    have hfault := hrefused (by
      unfold Token.Kind.startsOperand
      split
      · next hkind => exact absurd hkind hinteger
      · next hkind => exact absurd hkind hopening
      · rfl)
    rwa [noOperand, if_neg hend] at hfault

theorem chains_meet {levels : Nat} (hfactor : Meets (factor (inner levels)) .factor levels) :
    Meets (expressionWithin levels) .expression levels := by
  have hterm : Meets (chain .product (factor (inner levels))) (.chain .product) levels :=
    chain_meets hfactor
  have hexpression : Meets (chain .sum (chain .product (factor (inner levels)))) (.chain .sum)
      levels := chain_meets hterm
  rw [expressionWithin_eq]
  exact hexpression

/-- Expressions in which groups nest up to so many levels read what the grammar derives. -/
theorem expressionWithin_meets (levels : Nat) :
    Meets (expressionWithin levels) .expression levels := by
  induction levels with
  | zero => exact chains_meet (factor_meets fun below h => absurd h.symm (Nat.succ_ne_zero below))
  | succ levels ih => exact chains_meet (factor_meets fun below h => Nat.succ.inj h ▸ ih)

/-! ## Whole texts -/

theorem ready_start (token : Token) : Ready .start token :=
  ⟨Standing.expectsOperand_start, fun _ => rfl⟩

theorem expression_ensures {t : Standing} {s : Scanner} {r : Reader} (hat : r.At s)
    (hready : Ready t r.current) :
    Ensures expression r
      (fun e r' => ∃ tokens s',
        Reading s .expression (depthLimit - r.groupDepth) r.groupDepth tokens s' e r' ∧
          r'.height = e.height ∧ Settled .expression r'.current.kind)
      (t.FailsFrom s) := by
  unfold expression
  refine ensures_get ?_
  exact expressionWithin_meets _ t s r hat hready

/-- A complete expression is read like any expression; what follows it is only looked at. -/
theorem complete_eq (r : Reader) :
    complete r =
      match expression r with
      | .ok e s =>
        if s.current.kind = .endOfInput then .ok e s
        else .error ⟨.trailingInput s.current.kind s.current.lexeme, s.current.span⟩ s
      | .error fault s => .error fault s := by
  show EStateM.bind expression _ r = _
  unfold EStateM.bind
  cases expression r with
  | error fault s => rfl
  | ok e s =>
    show (if s.current.kind = .endOfInput then pure e else blame _ _ : Rule Expr) s = if _ then _ else _
    by_cases hend : s.current.kind = .endOfInput
    · rw [if_pos hend, if_pos hend]
      rfl
    · rw [if_neg hend, if_neg hend]
      rfl

/-- Reading a whole text: all of it is read and then it ends, or there is a fault. -/
theorem complete_ensures {s : Scanner} {r : Reader} (hat : r.At s) (hdepth : r.groupDepth = 0) :
    Ensures complete r
      (fun e r' => ∃ tokens s', Reading s .expression depthLimit 0 tokens s' e r' ∧
        r'.current.kind = .endOfInput)
      (Standing.start.FailsFrom s) := by
  refine Ensures.bind (expression_ensures hat (ready_start _)) ?_
  rintro e r' ⟨tokens, s', hreading, -, hsettled⟩
  rw [hdepth] at hreading
  refine ensures_get ?_
  dsimp only
  split
  · next hend => exact ensures_pure ⟨tokens, s', hreading, hend⟩
  · next hmore =>
    refine ensures_blame ?_
    obtain ⟨last, -, hends, -, hrun⟩ := hreading.run Standing.expectsOperand_start
    have hnot := Standing.not_admits_of_endsOperand hends hsettled.ne_operator
      (fun _ => rfl) (fun hkind => absurd hkind hmore)
    have hrefuses := Standing.Refuses.grammar (congrArg Prod.fst hreading.at_end) hnot
    rw [complaint_of_endsOperand hends, noContinuation, if_neg (Nat.lt_irrefl 0)] at hrefuses
    exact hrefuses.failsFrom.after hrun hreading.reads

end Reader

namespace Expr

open Grammar

/-- Parsing scans the first token and reads on from there. -/
theorem parse_cases (source : List Char) :
    (∃ fault, (Scanner.ofSource source).scan.1 = .error fault ∧ parse source = .error fault) ∨
      ∃ r : Reader, r.At (.ofSource source) ∧ r.groupDepth = 0 ∧
        parse source = match Reader.complete r with
          | .ok e _ => .ok e
          | .error fault _ => .error fault := by
  unfold parse Reader.ofScanner
  rcases hscan : (Scanner.ofSource source).scan with ⟨item, behind⟩
  cases item with
  | error fault => exact Or.inl ⟨fault, rfl, rfl⟩
  | ok token => exact Or.inr ⟨⟨behind, token, 0, 0, 0⟩, hscan, rfl, rfl⟩

/-- A text that is parsed is a sentence within the limits, and its expression is derived. -/
theorem reads_of_parse {source : List Char} {e : Expr} (h : parse source = .ok e) :
    ∃ tokens s' last, (Scanner.ofSource source).Reads tokens s' ∧ s'.scan.1 = .ok last ∧
      last.kind = .endOfInput ∧ Derives .expression tokens e ∧ NestsWithin depthLimit 0 tokens ∧
      e.height ≤ depthLimit := by
  rcases parse_cases source with ⟨fault, -, hfault⟩ | ⟨r, hat, hdepth, hparse⟩
  · rw [hfault] at h
    cases h
  · have hspec := Reader.complete_ensures hat hdepth
    rw [hparse] at h
    unfold Reader.Ensures at hspec
    split at h
    · next e' r' hrule =>
      rw [hrule] at hspec
      obtain rfl := Except.ok.inj h
      obtain ⟨tokens, s', hreading, hend⟩ := hspec
      exact ⟨tokens, s', r'.current, hreading.reads, congrArg Prod.fst hreading.at_end, hend,
        hreading.derives, hreading.nests, hreading.height_le⟩
    · cases h

/-- A text that is not parsed is refused at the first item that is not admitted, or by a limit. -/
theorem failsFrom_of_parse {source : List Char} {fault : Fault} (h : parse source = .error fault) :
    Standing.start.FailsFrom (.ofSource source) fault := by
  rcases parse_cases source with ⟨first, hscan, hfault⟩ | ⟨r, hat, hdepth, hparse⟩
  · rw [hfault] at h
    obtain rfl := Except.error.inj h
    exact (Standing.Refuses.lexical hscan).failsFrom
  · have hspec := Reader.complete_ensures hat hdepth
    rw [hparse] at h
    unfold Reader.Ensures at hspec
    split at h
    · cases h
    · next fault' r' hrule =>
      rw [hrule] at hspec
      obtain rfl := Except.error.inj h
      exact hspec

end Expr

end Calculator
