import Calculator.Proofs.Grammar.Overstep
import Calculator.Proofs.Reader.Completeness

/-!
# Sentences that are refused

Tokens that derive an expression beyond the limits are refused at the first of them that oversteps one
(`refused_of_derives`). The induction on the derivation is that of what is read (`readsAs_of_derives`):
a left operand within the limits is read, a right one too, and then only the operator is left to
refuse. Otherwise the operand is refused where it would be if it stood alone.
-/

namespace Calculator

namespace Grammar

/-- The groups around an expression count against the limit of what is read inside. -/
theorem Derives.withinLimits_iff {nonterminal : Nonterminal} {tokens : List Token} {e : Expr}
    (h : Derives nonterminal tokens e) {levels depth : Nat} (hlevels : levels + depth = depthLimit) :
    WithinLimits depth tokens e ↔ NestsWithin levels 0 tokens ∧ e.height ≤ depthLimit := by
  obtain ⟨last, -, -, hrun⟩ := h.run Standing.expectsOperand_start
  have hnests := hrun.nestsWithin_within levels depth
  rw [hlevels, show Standing.start.depth + depth = depth from Nat.zero_add depth] at hnests
  exact and_congr_left fun _ => hnests

end Grammar

namespace Reader

open Grammar

/-! ## Rules that fail -/

theorem chain_of_error {level : Level} {operand : Rule Expr} {r r' : Reader} {fault : Fault}
    (h : operand r = .error fault r') : chain level operand r = .error fault r' := by
  rw [chain, bind_of_error h]

theorem factor_of_no_level {opening : Token} {r r₁ : Reader} (hkind : r.current.kind = .leftParen)
    (hopening : advance r = .ok opening r₁) :
    factor none r = .error ⟨.tooDeep depthLimit, opening.span⟩ r₁ := by
  rw [factor_of_leftParen hkind, group, bind_of_ok hopening]
  rfl

theorem factor_of_inner_error {rule : Rule Expr} {opening : Token} {r r₁ r₂ : Reader} {fault : Fault}
    (hkind : r.current.kind = .leftParen) (hopening : advance r = .ok opening r₁)
    (hstarts : r₁.current.kind.startsOperand = true)
    (hinner : rule { r₁ with groupDepth := r₁.groupDepth + 1 } = .error fault r₂) :
    factor (some rule) r = .error fault r₂ := by
  rw [factor_opened hkind hopening (ne_rightParen_of_startsOperand hstarts), bind_of_error hinner]

/-! ## Chains -/

/-- The loop takes an operator, and what becomes of it is up to the operand behind it. -/
theorem chainFrom_enter (l : Expr) (height : Nat) {level : Level} (operand : Rule Expr)
    {right : Expr} {token : Token} {operator : Operator} {nonterminal : Nonterminal}
    {rs : List Token} {s s' : Scanner} {r : Reader} (hkind : token.kind = .operator operator)
    (hlevel : operator.level = level) (hright : Derives nonterminal rs right)
    (hreads : s.Reads (token :: rs) s') (hat : r.At s) :
    ∃ r₁, r₁.At r.scanner ∧ r.scanner.Reads rs s' ∧
      (∀ fault r₂, operand r₁ = .error fault r₂ →
        chainFrom level operand l height r = .error fault r₂) ∧
      ∀ e r₂, operand r₁ = .ok e r₂ → ¬ max height r₂.height + 1 ≤ depthLimit →
        chainFrom level operand l height r = .error ⟨.tooDeep depthLimit, token.span⟩ r₂ := by
  cases hreads with
  | cons hscan _ rest =>
  obtain ⟨rfl, rfl⟩ := hat.current_eq hscan
  obtain ⟨r₁, htoken, hat₁, hstarts, -⟩ := advance_of_reads hright rest
  have hoperator := operatorAt?_eq_some_iff.mpr ⟨hkind, hlevel⟩
  refine ⟨r₁, hat₁, rest, fun fault r₂ herror => ?_, fun e r₂ hresult hlimit => ?_⟩
  · rw [chainFrom_taken hoperator htoken hstarts, bind_of_error herror]
  · rw [chainFrom_taken hoperator htoken hstarts, bind_of_ok hresult, get_bind]
    rw [dif_neg hlimit]
    rfl

/-- A rule refuses tokens, at the first of them that oversteps a limit. -/
def RefusesFirst (rule : Rule Expr) (depth : Nat) (tokens : List Token) (e : Expr) (r : Reader) :
    Prop :=
  ∃ token place r', OverstepsFirst depth tokens e token place ∧
    rule r = .error ⟨.tooDeep depthLimit, token.span⟩ r'

/-- Two operands are refused in the left one, in the right one or at the operator between them. -/
theorem refusesFirst_join {level : Level} {rule operand : Rule Expr} {l right : Expr} {token : Token}
    {operator : Operator} {chain nonterminal : Nonterminal} {ls rs : List Token} {s s' : Scanner}
    {r : Reader} {depth : Nat} (left : Derives chain ls l) (hkind : token.kind = .operator operator)
    (hlevel : operator.level = level) (hright : Derives nonterminal rs right)
    (hapart : Token.Apart (ls ++ token :: rs)) (hreads : s.Reads (token :: rs) s')
    (hbeyond : ¬ WithinLimits depth (ls ++ token :: rs) (.join l operator right))
    (hleft : WithinLimits depth ls l →
      ∃ r₁, rule r = chainFrom level operand l l.height r₁ ∧ r₁.At s)
    (hleft' : ¬ WithinLimits depth ls l → RefusesFirst rule depth ls l r)
    (hoperand : ∀ s₂ r₂, s₂.Reads rs s' → r₂.At s₂ → WithinLimits depth rs right →
      ∃ r₃, operand r₂ = .ok right r₃ ∧ r₃.height = right.height)
    (hoperand' : ∀ s₂ r₂, s₂.Reads rs s' → r₂.At s₂ → ¬ WithinLimits depth rs right →
      RefusesFirst operand depth rs right r₂) :
    RefusesFirst rule depth (ls ++ token :: rs) (.join l operator right) r := by
  by_cases hl : WithinLimits depth ls l
  · obtain ⟨r₁, hrule, hat₁⟩ := hleft hl
    obtain ⟨r₂, hat₂, hreads₂, herror, hlimit⟩ :=
      chainFrom_enter l l.height operand hkind hlevel hright hreads hat₁
    by_cases hr : WithinLimits depth rs right
    · obtain ⟨r₃, hresult, hheight⟩ := hoperand _ r₂ hreads₂ hat₂ hr
      -- both operands are within the limits, so only their height can be too much
      have hhigh : ¬ max l.height right.height + 1 ≤ depthLimit := by
        intro hlow
        exact hbeyond ⟨(left.nestsWithin_join hkind _ _).mpr ⟨hl.1, hr.1⟩, hlow⟩
      have hmax : max l.height right.height = depthLimit := by
        have hlheight := hl.2
        have hrheight := hr.2
        omega
      exact ⟨token, _, r₃, .join_root left hkind hright hapart hl hr hmax,
        hrule.trans (hlimit right r₃ hresult (by rwa [hheight]))⟩
    · obtain ⟨other, place, r₃, hfirst, hfault⟩ := hoperand' _ r₂ hreads₂ hat₂ hr
      exact ⟨other, place, r₃, hfirst.join_right left hkind hright hapart hl,
        hrule.trans (herror _ r₃ hfault)⟩
  · obtain ⟨other, place, r', hfirst, hfault⟩ := hleft' hl
    exact ⟨other, place, r', hfirst.join_left left hkind hright hapart, hfault⟩

/-! ## Derivations -/

/-- The rule for a nonterminal. -/
def ruleFor (levels : Nat) : Nonterminal → Rule Expr
  | .factor => factor (inner levels)
  | .term => chain .product (factor (inner levels))
  | .expression => expressionWithin levels

/-- A derivation beyond the limits is refused at the first token that oversteps one. -/
theorem refused_of_derives {nonterminal : Nonterminal} {tokens : List Token} {e : Expr}
    (h : Derives nonterminal tokens e) {levels depth : Nat} {s s' behind : Scanner} {next : Token}
    {r : Reader} (hreads : s.Reads tokens s') (hat : r.At s) (hnext : s'.scan = (.ok next, behind))
    (hfollow : nonterminal = .expression → next.kind.operatorAt? .product = none)
    (hlevels : levels + depth = depthLimit) (hapart : Token.Apart tokens)
    (hbeyond : ¬ WithinLimits depth tokens e) :
    RefusesFirst (ruleFor levels nonterminal) depth tokens e r := by
  induction h generalizing levels depth s s' behind next r with
  | @number token value hkind hvalue =>
    refine absurd ⟨?_, ?_⟩ hbeyond
    · exact nestsWithin_cons.mpr ⟨by simp [hkind], nestsWithin_nil _ _⟩
    · exact (by decide : 1 ≤ depthLimit)
  | @group opening closing tokens e hopening inner hclosing ih =>
    cases hreads with
    | cons hscan _ rest =>
    obtain ⟨rfl, rfl⟩ := hat.current_eq hscan
    obtain ⟨s₂, hinside, hend⟩ := rest.split
    obtain ⟨r₁, htoken, hat₁, hstarts, -⟩ := advance_of_reads inner hinside
    cases levels with
    | zero =>
      have hdepth : depth = depthLimit := by omega
      exact ⟨_, _, r₁, .group_opening hopening inner hclosing hapart hdepth,
        factor_of_no_level hopening htoken⟩
    | succ below =>
      have hdepth : depth < depthLimit := by omega
      have hinner : ¬ WithinLimits (depth + 1) tokens e :=
        fun hwithin => hbeyond (hwithin.group hopening hclosing hdepth)
      have hstop : closing.kind.operatorAt? .product = none := by
        simp [hclosing, Token.Kind.operatorAt?]
      obtain ⟨_, hscan₂⟩ := hend.scan_eq
      obtain ⟨token, place, r₂, hfirst, hfault⟩ :=
        ih (r := { r₁ with groupDepth := r₁.groupDepth + 1 }) hinside hat₁ hscan₂ (fun _ => hstop)
          (by omega : below + (depth + 1) = depthLimit) hapart.tail.of_append.1 hinner
      exact ⟨token, place, r₂, hfirst.group_inside hopening hclosing (Nat.ne_of_lt hdepth),
        factor_of_inner_error hopening htoken hstarts hfault⟩
  | factor only ih =>
    obtain ⟨token, place, r', hfirst, hfault⟩ :=
      ih hreads hat hnext (by simp) hlevels hapart hbeyond
    exact ⟨token, place, r', hfirst, chain_of_error hfault⟩
  | term only ih =>
    obtain ⟨token, place, r', hfirst, hfault⟩ :=
      ih hreads hat hnext (by simp) hlevels hapart hbeyond
    refine ⟨token, place, r', hfirst, ?_⟩
    rw [ruleFor, expressionWithin_eq]
    exact chain_of_error hfault
  | @product ls rs token operator l right left hkind hlevel hright ihl ihr =>
    obtain ⟨s₁, hls, hrs⟩ := hreads.split
    obtain ⟨_, hnext₁⟩ := hrs.scan_eq
    obtain ⟨hals, hars⟩ := hapart.of_append
    refine refusesFirst_join left hkind hlevel hright hapart hrs hbeyond (fun hwithin => ?_)
      (ihl hls hat hnext₁ (by simp) hlevels hals) (fun s₂ r₂ hreads₂ hat₂ hwithin => ?_)
      (fun s₂ r₂ hreads₂ hat₂ => ihr hreads₂ hat₂ hnext (by simp) hlevels hars.tail)
    · obtain ⟨hnests, hheight⟩ := (left.withinLimits_iff hlevels).mp hwithin
      obtain ⟨r₁, hleft, hat₁, -⟩ := readsAs_of_derives left hls hat hnext₁ (by simp) hnests hheight
      exact ⟨r₁, hleft, hat₁⟩
    · obtain ⟨hnests, hheight⟩ := (hright.withinLimits_iff hlevels).mp hwithin
      obtain ⟨r₃, hresult, -⟩ :=
        readsAs_of_derives hright hreads₂ hat₂ hnext (by simp) hnests hheight
      exact ⟨r₃, hresult⟩
  | @sum ls rs token operator l right left hkind hlevel hright ihl ihr =>
    obtain ⟨s₁, hls, hrs⟩ := hreads.split
    obtain ⟨_, hnext₁⟩ := hrs.scan_eq
    obtain ⟨hals, hars⟩ := hapart.of_append
    have hstop : token.kind.operatorAt? .product = none := by
      simp [hkind, Token.Kind.operatorAt?, hlevel]
    refine refusesFirst_join left hkind hlevel hright hapart hrs hbeyond (fun hwithin => ?_)
      (ihl hls hat hnext₁ (fun _ => hstop) hlevels hals) (fun s₂ r₂ hreads₂ hat₂ hwithin => ?_)
      (fun s₂ r₂ hreads₂ hat₂ => ihr hreads₂ hat₂ hnext (by simp) hlevels hars.tail)
    · obtain ⟨hnests, hheight⟩ := (left.withinLimits_iff hlevels).mp hwithin
      obtain ⟨r₁, hleft, hat₁, -⟩ :=
        readsAs_of_derives left hls hat hnext₁ (fun _ => hstop) hnests hheight
      exact ⟨r₁, hleft, hat₁⟩
    · obtain ⟨hnests, hheight⟩ := (hright.withinLimits_iff hlevels).mp hwithin
      obtain ⟨r₃, hterm, hat₃, -⟩ :=
        readsAs_of_derives hright hreads₂ hat₂ hnext (by simp) hnests hheight
      obtain ⟨rfl, -⟩ := hat₃.current_eq hnext
      exact ⟨_, hterm.term_eq (hfollow rfl), rfl⟩

end Reader

end Calculator
