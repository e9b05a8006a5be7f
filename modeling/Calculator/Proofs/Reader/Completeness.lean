import Calculator.Proofs.Reader.Soundness

/-!
# Whatever is derived is read

Tokens that derive an expression within the limits are read as that expression. A chain may go on
behind them, so for chains this is said of the loop: reading the tokens leads into the loop with
what they derive on its left (`ReadsAs`). Then the induction on the derivation follows the loop,
because a chain grows at its right end in both.
-/

namespace Calculator

namespace Reader

open Grammar

theorem bind_of_ok {α β : Type} {rule : Rule α} {next : α → Rule β} {r r' : Reader} {a : α}
    (h : rule r = .ok a r') : (rule >>= next) r = next a r' := by
  show EStateM.bind rule next r = next a r'
  unfold EStateM.bind
  rw [h]

theorem bind_of_error {α β : Type} {rule : Rule α} {next : α → Rule β} {r r' : Reader} {fault : Fault}
    (h : rule r = .error fault r') : (rule >>= next) r = .error fault r' := by
  show EStateM.bind rule next r = .error fault r'
  unfold EStateM.bind
  rw [h]

theorem get_bind {β : Type} {next : Reader → Rule β} (r : Reader) :
    (get >>= next) r = next r r := rfl

theorem modify_bind {β : Type} {f : Reader → Reader} {next : PUnit → Rule β} (r : Reader) :
    (modify f >>= next) r = next ⟨⟩ (f r) := rfl

theorem advance_eq {r : Reader} {next : Token} {behind : Scanner}
    (hscan : r.scanner.scan = (.ok next, behind)) :
    advance r = .ok r.current
      { r with scanner := behind, current := next, previousEnd := r.current.span.stop } := by
  unfold advance
  rw [hscan]

/-! ## The loop of a chain -/

theorem chainFrom_stop {level : Level} {operand : Rule Expr} {e : Expr} {height : Nat} {r : Reader}
    (hnone : r.current.kind.operatorAt? level = none) :
    chainFrom level operand e height r = .ok e { r with height } := by
  rw [chainFrom, get_bind, hnone]
  rfl

theorem requireOperand_eq {r : Reader} {operator : Operator} {token : Token}
    (hstarts : r.current.kind.startsOperand = true) :
    requireOperand operator token r = .ok ⟨⟩ r := by
  unfold requireOperand
  rw [get_bind, hstarts]
  rfl

/-- The loop takes an operator. An operand has to follow, and then the loop may go on. -/
theorem chainFrom_taken {level : Level} {operand : Rule Expr} {l : Expr} {height : Nat}
    {operator : Operator} {token : Token} {r r₁ : Reader}
    (hoperator : r.current.kind.operatorAt? level = some operator) (htoken : advance r = .ok token r₁)
    (hstarts : r₁.current.kind.startsOperand = true) :
    chainFrom level operand l height r =
      (do
        let right ← operand
        let joined := max height (← get).height + 1
        if _within : joined ≤ depthLimit then
          chainFrom level operand (.join l operator right) joined
        else
          blame (.tooDeep depthLimit) token.span : Rule Expr) r₁ := by
  rw [chainFrom, get_bind, hoperator]
  dsimp only
  rw [bind_of_ok htoken, bind_of_ok (requireOperand_eq hstarts)]

theorem chainFrom_step {level : Level} {operand : Rule Expr} {l right : Expr} {height : Nat}
    {operator : Operator} {token : Token} {r r₁ r₂ : Reader}
    (hoperator : r.current.kind.operatorAt? level = some operator) (htoken : advance r = .ok token r₁)
    (hstarts : r₁.current.kind.startsOperand = true) (hright : operand r₁ = .ok right r₂)
    (hlimit : max height r₂.height + 1 ≤ depthLimit) :
    chainFrom level operand l height r =
      chainFrom level operand (.join l operator right) (max height r₂.height + 1) r₂ := by
  rw [chainFrom_taken hoperator htoken hstarts, bind_of_ok hright, get_bind]
  rw [dif_pos hlimit]

theorem chain_eq {level : Level} {operand : Rule Expr} {e : Expr} {r r' : Reader}
    (h : operand r = .ok e r') :
    chain level operand r = chainFrom level operand e r'.height r' := by
  rw [chain, bind_of_ok h, get_bind]

/-! ## Factors -/

theorem factor_number {inner : Option (Rule Expr)} {value : Word} {next : Token}
    {behind : Scanner} {r : Reader} (hkind : r.current.kind = .integer)
    (hvalue : r.current.value = some value) (hscan : r.scanner.scan = (.ok next, behind)) :
    factor inner r = .ok (.number value r.current.span)
      { r with scanner := behind, current := next, previousEnd := r.current.span.stop, height := 1 } := by
  have hnumber : factor inner r = number r := by
    unfold factor
    rw [get_bind, hkind]
  rw [hnumber, number, bind_of_ok (advance_eq hscan), hvalue]
  rfl

theorem factor_of_leftParen {inner : Option (Rule Expr)} {r : Reader}
    (hkind : r.current.kind = .leftParen) : factor inner r = group inner r := by
  unfold factor
  rw [get_bind, hkind]

theorem ne_rightParen_of_startsOperand {kind : Token.Kind} (h : kind.startsOperand = true) :
    kind ≠ .rightParen := by
  rintro rfl
  simp [Token.Kind.startsOperand] at h

/-- What stands in a group is read with the group counted. -/
theorem factor_opened {rule : Rule Expr} {opening : Token} {r r₁ : Reader}
    (hkind : r.current.kind = .leftParen) (hopening : advance r = .ok opening r₁)
    (hnonempty : r₁.current.kind ≠ .rightParen) :
    factor (some rule) r =
      (do
        let e ← rule
        modify fun r => { r with groupDepth := r.groupDepth - 1 }
        if (← get).current.kind = .rightParen then
          let closing ← advance
          return e.withSpan (opening.span.cover closing.span)
        else
          blame .unclosedGroup (← get).missingSpan : Rule Expr)
      { r₁ with groupDepth := r₁.groupDepth + 1 } := by
  rw [factor_of_leftParen hkind, group, bind_of_ok hopening]
  show groupBody rule opening r₁ = _
  rw [groupBody, get_bind, if_neg hnonempty]
  dsimp only
  rw [modify_bind]

theorem factor_group {rule : Rule Expr} {opening closing : Token} {e : Expr} {r r₁ r₂ r₃ : Reader}
    (hkind : r.current.kind = .leftParen) (hopening : advance r = .ok opening r₁)
    (hnonempty : r₁.current.kind ≠ .rightParen)
    (hinner : rule { r₁ with groupDepth := r₁.groupDepth + 1 } = .ok e r₂)
    (hlast : r₂.current.kind = .rightParen)
    (hclosing : advance { r₂ with groupDepth := r₂.groupDepth - 1 } = .ok closing r₃) :
    factor (some rule) r = .ok (e.withSpan (opening.span.cover closing.span)) r₃ := by
  rw [factor_opened hkind hopening hnonempty, bind_of_ok hinner, modify_bind, get_bind,
    if_pos hlast, bind_of_ok hclosing]
  rfl

/-! ## Derivations -/

/-- Tokens are read as an expression: at once, or by the loop that goes on behind them. -/
def ReadsAs (levels : Nat) (e : Expr) (r r' : Reader) : Nonterminal → Prop
  | .factor => factor (inner levels) r = .ok e r' ∧ r'.height = e.height
  | .term =>
    chain .product (factor (inner levels)) r =
      chainFrom .product (factor (inner levels)) e e.height r'
  | .expression =>
    expressionWithin levels r =
      chainFrom .sum (chain .product (factor (inner levels))) e e.height r'

/-- The first token of a derivation starts an operand. -/
theorem startsOperand_of_derives {nonterminal : Nonterminal} {tokens : List Token} {e : Expr}
    (h : Derives nonterminal tokens e) :
    ∃ first rest, tokens = first :: rest ∧ first.kind.startsOperand = true := by
  induction h with
  | @number token _ hkind _ => exact ⟨token, [], rfl, by simp [hkind, Token.Kind.startsOperand]⟩
  | @group opening _ _ _ hopening _ _ _ =>
    exact ⟨opening, _, rfl, by simp [hopening, Token.Kind.startsOperand]⟩
  | factor _ ih | term _ ih => exact ih
  | product _ _ _ _ ihl _ | sum _ _ _ _ ihl _ =>
    obtain ⟨first, rest, rfl, hstarts⟩ := ihl
    exact ⟨first, _, rfl, hstarts⟩

/-- Taking a token in front of an operand. -/
theorem advance_of_reads {nonterminal : Nonterminal} {tokens : List Token} {e : Expr}
    (h : Derives nonterminal tokens e) {r : Reader} {s' : Scanner}
    (hreads : r.scanner.Reads tokens s') :
    ∃ r', advance r = .ok r.current r' ∧ r'.At r.scanner ∧
      r'.current.kind.startsOperand = true ∧ r'.groupDepth = r.groupDepth := by
  obtain ⟨first, rest, rfl, hstarts⟩ := startsOperand_of_derives h
  cases hreads with
  | cons hscan _ _ => exact ⟨_, advance_eq hscan, hscan, hstarts, rfl⟩

theorem At.current_eq {r : Reader} {s behind : Scanner} {token : Token} (hat : r.At s)
    (hscan : s.scan = (.ok token, behind)) : r.current = token ∧ r.scanner = behind := by
  have h := hat.symm.trans hscan
  simp only [Prod.mk.injEq, Except.ok.injEq] at h
  exact h

/-- A token that stops a chain of factors ends a term. -/
theorem ReadsAs.term_eq {levels : Nat} {e : Expr} {r r' : Reader}
    (h : ReadsAs levels e r r' .term) (hnone : r'.current.kind.operatorAt? .product = none) :
    chain .product (factor (inner levels)) r = .ok e { r' with height := e.height } := by
  unfold ReadsAs at h
  rw [h, chainFrom_stop hnone]

/-- The loop takes an operator and what it reads behind it. -/
theorem chainFrom_join {level : Level} {operand : Rule Expr} {l right : Expr} {token : Token}
    {operator : Operator} {rs : List Token} {s s' : Scanner} {r : Reader}
    (hkind : token.kind = .operator operator) (hlevel : operator.level = level)
    (hright : Derives (.operand level) rs right) (hreads : s.Reads (token :: rs) s') (hat : r.At s)
    (hoperand : ∀ (s₁ : Scanner) (r₁ : Reader), s₁.Reads rs s' → r₁.At s₁ →
      ∃ r₂, operand r₁ = .ok right r₂ ∧ r₂.height = right.height ∧ r₂.At s' ∧
        r₂.groupDepth = r₁.groupDepth)
    (hheight : (Expr.join l operator right).height ≤ depthLimit) :
    ∃ r', chainFrom level operand l l.height r =
        chainFrom level operand (.join l operator right) (Expr.join l operator right).height r' ∧
      r'.At s' ∧ r'.groupDepth = r.groupDepth := by
  cases hreads with
  | cons hscan _ rest =>
  obtain ⟨rfl, rfl⟩ := hat.current_eq hscan
  obtain ⟨r₁, htoken, hat₁, hstarts, hdepth₁⟩ := advance_of_reads hright rest
  obtain ⟨r₂, hrule, hheight₂, hat₂, hdepth₂⟩ := hoperand _ _ rest hat₁
  have hoperator := operatorAt?_eq_some_iff.mpr ⟨hkind, hlevel⟩
  refine ⟨r₂, ?_, hat₂, hdepth₂.trans hdepth₁⟩
  rw [Expr.height_join] at hheight ⊢
  rw [chainFrom_step hoperator htoken hstarts hrule (by rwa [hheight₂]), hheight₂]

theorem heights_le_of_join {l right : Expr} {operator : Operator} {limit : Nat}
    (h : (Expr.join l operator right).height ≤ limit) :
    l.height ≤ limit ∧ right.height ≤ limit := by
  rw [Expr.height_join] at h
  omega

/-- A derivation within the limits is read as what it derives. -/
theorem readsAs_of_derives {nonterminal : Nonterminal} {tokens : List Token} {e : Expr}
    (h : Derives nonterminal tokens e) {levels : Nat} {s s' behind : Scanner} {next : Token}
    {r : Reader} (hreads : s.Reads tokens s') (hat : r.At s) (hnext : s'.scan = (.ok next, behind))
    (hfollow : nonterminal = .expression → next.kind.operatorAt? .product = none)
    (hnests : NestsWithin levels 0 tokens) (hheight : e.height ≤ depthLimit) :
    ∃ r', ReadsAs levels e r r' nonterminal ∧ r'.At s' ∧ r'.groupDepth = r.groupDepth := by
  induction h generalizing levels s s' behind next r with
  | @number token value hkind hvalue =>
    cases hreads with
    | cons hscan hmore rest =>
    cases rest with
    | nil =>
    obtain ⟨rfl, rfl⟩ := hat.current_eq hscan
    exact ⟨_, ⟨factor_number hkind hvalue hnext, rfl⟩, hnext, rfl⟩
  | @group opening closing tokens e hopening inner hclosing ih =>
    obtain ⟨below, rfl⟩ : ∃ below, levels = below + 1 := by
      have hpos := (nestsWithin_cons.mp hnests).1 hopening
      exact Nat.exists_eq_succ_of_ne_zero (Nat.ne_of_gt hpos)
    cases hreads with
    | cons hscan _ rest =>
    obtain ⟨rfl, rfl⟩ := hat.current_eq hscan
    obtain ⟨s₂, hinside, hend⟩ := rest.split
    obtain ⟨r₁, htoken, hat₁, hstarts, hdepth₁⟩ := advance_of_reads inner hinside
    cases hend with
    | cons hscan₂ _ hrest =>
    cases hrest with
    | nil =>
    have hstop : closing.kind.operatorAt? .product = none ∧ closing.kind.operatorAt? .sum = none := by
      simp [hclosing, Token.Kind.operatorAt?]
    -- the closing parenthesis stops both loops inside the group
    have hwithin := (inner.nestsWithin_group hopening hclosing below).mp hnests
    rw [Expr.height_withSpan] at hheight
    obtain ⟨r₂, hloop, hat₂, hdepth₂⟩ :=
      ih (r := { r₁ with groupDepth := r₁.groupDepth + 1 }) hinside hat₁ hscan₂ (fun _ => hstop.1)
        hwithin hheight
    obtain ⟨rfl, rfl⟩ := hat₂.current_eq hscan₂
    unfold ReadsAs at hloop
    rw [chainFrom_stop hstop.2] at hloop
    have hnonempty := ne_rightParen_of_startsOperand hstarts
    have hclose := advance_eq (r := { r₂ with height := e.height, groupDepth := r₂.groupDepth - 1 }) hnext
    refine ⟨_, ⟨factor_group hopening htoken hnonempty hloop hclosing hclose, ?_⟩, hnext, ?_⟩
    · exact (Expr.height_withSpan _ _).symm
    · show r₂.groupDepth - 1 = r.groupDepth
      rw [hdepth₂, ← hdepth₁]
      rfl
  | factor only ih =>
    obtain ⟨r', ⟨hfactor, hheight'⟩, hat', hdepth⟩ := ih hreads hat hnext (by simp) hnests hheight
    refine ⟨r', ?_, hat', hdepth⟩
    unfold ReadsAs
    rw [chain_eq hfactor, hheight']
  | @term tokens e only ih =>
    obtain ⟨r', hterm, hat', hdepth⟩ := ih hreads hat hnext (by simp) hnests hheight
    obtain ⟨rfl, -⟩ := hat'.current_eq hnext
    refine ⟨{ r' with height := e.height }, ?_, hat', hdepth⟩
    unfold ReadsAs
    rw [expressionWithin_eq, chain_eq (hterm.term_eq (hfollow rfl))]
  | @product ls rs token operator l right left hkind hlevel hright ihl ihr =>
    obtain ⟨hnestsl, hnestsr⟩ := (left.nestsWithin_join hkind levels 0).mp hnests
    obtain ⟨hheightl, hheightr⟩ := heights_le_of_join hheight
    obtain ⟨s₁, hls, hrs⟩ := hreads.split
    obtain ⟨_, hnext₁⟩ := hrs.scan_eq
    obtain ⟨r₁, hleft, hat₁, hdepth₁⟩ := ihl hls hat hnext₁ (by simp) hnestsl hheightl
    have hoperand : ∀ (s₂ : Scanner) (r₂ : Reader), s₂.Reads rs s' → r₂.At s₂ →
        ∃ r₃, factor (inner levels) r₂ = .ok right r₃ ∧ r₃.height = right.height ∧ r₃.At s' ∧
          r₃.groupDepth = r₂.groupDepth := by
      intro s₂ r₂ hreads₂ hat₂
      obtain ⟨r₃, ⟨hrule, hheight₃⟩, hat₃, hdepth₃⟩ :=
        ihr hreads₂ hat₂ hnext (by simp) hnestsr hheightr
      exact ⟨r₃, hrule, hheight₃, hat₃, hdepth₃⟩
    obtain ⟨r₃, hloop, hat₃, hdepth₃⟩ :=
      chainFrom_join hkind hlevel hright hrs hat₁ hoperand hheight
    exact ⟨r₃, hleft.trans hloop, hat₃, hdepth₃.trans hdepth₁⟩
  | @sum ls rs token operator l right left hkind hlevel hright ihl ihr =>
    obtain ⟨hnestsl, hnestsr⟩ := (left.nestsWithin_join hkind levels 0).mp hnests
    obtain ⟨hheightl, hheightr⟩ := heights_le_of_join hheight
    obtain ⟨s₁, hls, hrs⟩ := hreads.split
    obtain ⟨_, hnext₁⟩ := hrs.scan_eq
    -- the operator ends the term in front of it, and the next token the one behind it
    have hstop : token.kind.operatorAt? .product = none := by
      simp [hkind, Token.Kind.operatorAt?, hlevel]
    obtain ⟨r₁, hleft, hat₁, hdepth₁⟩ := ihl hls hat hnext₁ (fun _ => hstop) hnestsl hheightl
    have hoperand : ∀ (s₂ : Scanner) (r₂ : Reader), s₂.Reads rs s' → r₂.At s₂ →
        ∃ r₃, chain .product (factor (inner levels)) r₂ = .ok right r₃ ∧
          r₃.height = right.height ∧ r₃.At s' ∧ r₃.groupDepth = r₂.groupDepth := by
      intro s₂ r₂ hreads₂ hat₂
      obtain ⟨r₃, hterm, hat₃, hdepth₃⟩ :=
        ihr hreads₂ hat₂ hnext (by simp) hnestsr hheightr
      obtain ⟨rfl, -⟩ := hat₃.current_eq hnext
      exact ⟨{ r₃ with height := right.height }, hterm.term_eq (hfollow rfl), rfl, hat₃, hdepth₃⟩
    obtain ⟨r₃, hloop, hat₃, hdepth₃⟩ :=
      chainFrom_join hkind hlevel hright hrs hat₁ hoperand hheight
    exact ⟨r₃, hleft.trans hloop, hat₃, hdepth₃.trans hdepth₁⟩

/-- An expression is read in front of a token that cannot go on with it. -/
theorem expression_of_derives {tokens : List Token} {e : Expr} {s s' : Scanner} {next : Token} {r : Reader}
    (h : Derives .expression tokens e) (hreads : s.Reads tokens s') (hat : r.At s)
    (hdepth : r.groupDepth = 0) (hnext : s'.scan.1 = .ok next)
    (hstop : ∀ level, next.kind.operatorAt? level = none) (hnests : NestsWithin depthLimit 0 tokens)
    (hheight : e.height ≤ depthLimit) :
    ∃ r', expression r = .ok e r' ∧ r'.At s' ∧ r'.groupDepth = 0 := by
  have hscan : s'.scan = (.ok next, s'.scan.2) := Prod.ext hnext rfl
  obtain ⟨r', hloop, hat', hdepth'⟩ :=
    readsAs_of_derives h hreads hat hscan (fun _ => hstop .product) hnests hheight
  obtain ⟨hcurrent, -⟩ := hat'.current_eq hscan
  refine ⟨{ r' with height := e.height }, ?_, hat', hdepth'.trans hdepth⟩
  rw [expression, get_bind, hdepth]
  show expressionWithin depthLimit r = _
  unfold ReadsAs at hloop
  rw [hloop, chainFrom_stop (hcurrent ▸ hstop .sum)]

end Reader

/-! ## Whole texts -/

/-- A text whose tokens derive an expression within the limits is parsed as that expression. -/
theorem Expr.parse_of_reads {source : List Char} {tokens : List Token} {last : Token} {e : Expr}
    {s' : Scanner} (hreads : (Scanner.ofSource source).Reads tokens s') (hlast : s'.scan.1 = .ok last)
    (hend : last.kind = .endOfInput) (h : Grammar.Derives .expression tokens e)
    (hnests : Grammar.NestsWithin depthLimit 0 tokens) (hheight : e.height ≤ depthLimit) :
    Expr.parse source = .ok e := by
  rcases Expr.parse_cases source with ⟨fault, hfault, -⟩ | ⟨r, hat, hdepth, hparse⟩
  · -- the first item is a token, because some token is read
    obtain ⟨first, rest, rfl, -⟩ := Reader.startsOperand_of_derives h
    obtain ⟨behind, hscan⟩ := hreads.scan_eq
    rw [hscan] at hfault
    cases hfault
  · have hstop : ∀ level, last.kind.operatorAt? level = none := by
      intro level
      simp [hend, Token.Kind.operatorAt?]
    obtain ⟨r', hexpression, hat', -⟩ :=
      Reader.expression_of_derives h hreads hat hdepth hlast hstop hnests hheight
    obtain ⟨hcurrent, -⟩ := hat'.current_eq (Prod.ext hlast rfl)
    have hcomplete : Reader.complete r = .ok e r' := by
      rw [Reader.complete_eq, hexpression]
      exact if_pos (hcurrent ▸ hend)
    rw [hparse, hcomplete]

end Calculator
