import Calculator.Proofs.Reader.History
import Calculator.Proofs.Reader.Soundness

/-!
# Where a depth fault is found

Whatever the tokens are, a rule blames the depth at a token that oversteps a limit: an opening
parenthesis with as many open groups in front of it as there may be, or an operator between two operands
that have been read, of which one is as high as an expression may be (`Standing.OverstepsAt`).

What the rules return is known (`Meets`), so only their faults are followed here. There are two places
where the depth is blamed, `group` and `chainFrom`; all other faults have other causes.
-/

namespace Calculator

open Grammar

namespace Grammar.Standing

open Reader

/-- No operator in front takes what a nonterminal derives for its own operand. -/
def Opens (t : Standing) (nonterminal : Nonterminal) : Prop :=
  ∀ last, t.last = some last → Settled nonterminal last.kind

theorem opens_start (nonterminal : Nonterminal) : start.Opens nonterminal := by
  intro last hlast
  simp [start] at hlast

/-- A token that oversteps a limit, among those that are read behind a standing. -/
inductive OverstepsAt (t : Standing) (s : Scanner) : Span → Prop where
  /-- A group opens where as many are open as may be. -/
  | group {before : List Token} {opening : Token} {s' : Scanner}
      (hreads : s.Reads (before ++ [opening]) s') (hkind : opening.kind = .leftParen)
      (hdepth : unclosed t.depth before = depthLimit) : OverstepsAt t s opening.span
  /-- An operator joins two operands that have been read. They are the whole operands: neither an
  operator in front of them nor one behind binds more tightly. -/
  | operator {before ls rs : List Token} {token next : Token} {operator : Operator} {l r : Expr}
      {s' : Scanner} (hreads : s.Reads (before ++ ls ++ token :: rs) s')
      (hkind : token.kind = .operator operator) (left : Derives (.chain operator.level) ls l)
      (right : Derives (.operand operator.level) rs r)
      (hfront : ∀ last, before.getLast?.or t.last = some last →
        Settled (.chain operator.level) last.kind)
      (hnext : s'.scan.1 = .ok next) (hbehind : Settled (.operand operator.level) next.kind)
      (hheight : max l.height r.height = depthLimit) : OverstepsAt t s token.span

/-- If a fault blames the depth, it is blamed on a token that oversteps a limit. -/
def BlamesDepth (t : Standing) (s : Scanner) (fault : Fault) : Prop :=
  ∀ limit, fault.cause = .tooDeep limit → t.OverstepsAt s fault.span

theorem OverstepsAt.after {t t' : Standing} {s s' : Scanner} {tokens : List Token} {span : Span}
    (h : t'.OverstepsAt s' span) (hrun : t.Run tokens t') (hreads : s.Reads tokens s') :
    t.OverstepsAt s span := by
  cases h with
  | @group before opening _ hothers hkind hdepth =>
    have hall := hreads.append hothers
    rw [← List.append_assoc] at hall
    refine .group hall hkind ?_
    rw [unclosed_append, ← hrun.depth_eq]
    exact hdepth
  | @operator before ls rs token next operator l r s'' hothers hkind left right hfront hnext hbehind
      hheight =>
    have hall : s.Reads (tokens ++ before ++ ls ++ token :: rs) s'' := by
      simpa using hreads.append hothers
    refine .operator hall hkind left right (fun last hlast => hfront last ?_) hnext hbehind hheight
    rw [hrun.last_eq, ← Option.or_assoc, ← List.getLast?_append]
    exact hlast

theorem blamesDepth_of_ne {t : Standing} {s : Scanner} {fault : Fault}
    (h : ∀ limit, fault.cause ≠ .tooDeep limit) : t.BlamesDepth s fault :=
  fun limit hcause => absurd hcause (h limit)

/-- A scanner blames characters and numbers only. -/
theorem blamesDepth_of_scan {t : Standing} {s s' : Scanner} {fault : Fault}
    (hscan : s'.scan.1 = .error fault) : t.BlamesDepth s fault := by
  refine blamesDepth_of_ne fun limit hcause => ?_
  rcases Scanner.scan_error (Prod.ext hscan rfl) with ⟨c, hother, -⟩ | ⟨digits, hother, -⟩
  · cases hcause.symm.trans hother
  · cases hcause.symm.trans hother

end Grammar.Standing

namespace Reader

open Grammar

variable {t : Standing} {s : Scanner} {r : Reader} {levels : Nat}

/-! ## Faults with other causes -/

section

variable {α β : Type} {P Q : α → Reader → Prop} {E F : Fault → Prop} {rule : Rule α}

/-- The result from one statement, the fault from another. -/
theorem Ensures.mix (h : Ensures rule r P E) (h' : Ensures rule r Q F) : Ensures rule r P F := by
  unfold Ensures at h h' ⊢
  split
  · next hrule =>
    rw [hrule] at h
    exact h
  · next hrule =>
    rw [hrule] at h'
    exact h'

theorem Ensures.blamesDepth_after {t' : Standing} {s' : Scanner} {tokens : List Token}
    (h : Ensures rule r P (t'.BlamesDepth s')) (hrun : t.Run tokens t') (hreads : s.Reads tokens s') :
    Ensures rule r P (t.BlamesDepth s) := by
  unfold Ensures at h ⊢
  split at h
  · exact h
  · exact fun limit hcause => (h limit hcause).after hrun hreads

end

theorem advance_blamesDepth (r : Reader) :
    Ensures advance r
      (fun token r' => token = r.current ∧ r'.At r.scanner ∧ r'.previousEnd = r.current.span.stop ∧
        r'.height = r.height ∧ r'.groupDepth = r.groupDepth)
      (t.BlamesDepth s) := by
  have h := advance_ensures r
  unfold Ensures at h ⊢
  split
  · next hrule => simpa [hrule] using h
  · next fault _ hrule =>
    have hscan : r.scanner.scan.1 = .error fault := by simpa [hrule] using h
    exact Standing.blamesDepth_of_scan hscan

theorem requireOperand_blamesDepth {operator : Operator} {token : Token} :
    Ensures (requireOperand operator token) r
      (fun _ r' => r' = r ∧ r.current.kind.startsOperand = true) (t.BlamesDepth s) := by
  unfold requireOperand
  refine ensures_get ?_
  cases hstarts : r.current.kind.startsOperand with
  | true => exact ensures_pure ⟨rfl, rfl⟩
  | false => exact ensures_blame (Standing.blamesDepth_of_ne (by simp))

theorem number_blamesDepth : Ensures number r (fun _ _ => True) (t.BlamesDepth s) := by
  unfold number
  refine Ensures.bind (advance_blamesDepth r) ?_
  rintro token r' -
  cases token.value with
  | none => exact ensures_blame (Standing.blamesDepth_of_ne (by simp))
  | some value => exact ensures_record trivial

/-! ## Chains -/

/-- What a rule blames for the depth oversteps a limit, if the groups around it leave so many levels. -/
def Blames (rule : Rule Expr) (nonterminal : Nonterminal) (levels : Nat) : Prop :=
  ∀ t s r, r.At s → Ready t r.current → t.Opens nonterminal → levels + t.depth = depthLimit →
    Ensures rule r (fun _ _ => True) (t.BlamesDepth s)

theorem Settled.operand {level : Level} {kind : Token.Kind} (h : Settled (.chain level) kind) :
    Settled (.operand level) kind := by
  cases level with
  | sum => exact h.1
  | product => trivial

/-- An operator takes no operand from an operator that binds more tightly. -/
theorem settled_of_operator {kind : Token.Kind} {operator : Operator}
    (hkind : kind = .operator operator) : Settled (.operand operator.level) kind := by
  subst hkind
  cases operator with
  | add | subtract => rfl
  | multiply | divide => trivial

/-- The loop of a chain, when a part of it has been read. -/
theorem chainFrom_blamesDepth {level : Level} {operand : Rule Expr}
    (hoperand : Meets operand (.operand level) levels)
    (hblames : Blames operand (.operand level) levels) (ht : t.ExpectsOperand)
    (hopens : t.Opens (.chain level)) (hdepth : levels + t.depth = depthLimit) {depth : Nat}
    {ls : List Token} {s₁ : Scanner} {l : Expr}
    (left : Reading s (.chain level) levels depth ls s₁ l r) :
    Ensures (chainFrom level operand l l.height) r (fun _ _ => True) (t.BlamesDepth s) := by
  -- each join raises the height, which the limit bounds
  induction hleft : depthLimit - l.height using Nat.strongRecOn generalizing ls s₁ l r with
  | _ n ih =>
  rw [chainFrom]
  refine ensures_get ?_
  cases hnext : r.current.kind.operatorAt? level with
  | none => exact ensures_record trivial
  | some operator =>
    obtain ⟨hkind, rfl⟩ := operatorAt?_eq_some_iff.mp hnext
    have hmore : r.current.kind ≠ .endOfInput := by simp [hkind]
    obtain ⟨last, -, hends, -, hrun⟩ := left.run ht
    have htaken : s₁.Reads [r.current] r.scanner := .single left.at_end hmore
    have hreads := left.reads.append htaken
    have hbehind := hrun.append (.operator hends hkind)
    refine Ensures.bind (advance_blamesDepth r) ?_
    rintro token r₁ ⟨rfl, hat, -, -, hgroups⟩
    refine Ensures.bind requireOperand_blamesDepth ?_
    rintro _ r₁ ⟨rfl, hstarts⟩
    have hready : Ready ⟨some r.current, t.depth⟩ r₁.current :=
      ready_of_startsOperand (Standing.expectsOperand_operator hkind) hstarts
    have hopens' : (⟨some r.current, t.depth⟩ : Standing).Opens (.operand operator.level) := by
      intro last' hlast'
      obtain rfl := Option.some.inj hlast'
      exact settled_of_operator hkind
    refine Ensures.bind ((hoperand _ _ _ hat hready).mix
      ((hblames _ _ _ hat hready hopens' hdepth).blamesDepth_after hbehind hreads)) ?_
    rintro right r₂ ⟨rs, s₂, hright, hheight, hsettled⟩
    rw [hgroups, left.groupDepth_eq] at hright
    refine ensures_get ?_
    rw [hheight]
    dsimp only
    split
    · next hwithin =>
      exact ih _ (by rw [← hleft, Expr.height_join]; omega)
        (left.join hkind rfl htaken hright hwithin) rfl
    · next hbeyond =>
      -- both operands are within the limit, so the higher one has reached it
      have hmax : max l.height right.height = depthLimit := by
        have hl := left.height_le
        have hr := hright.height_le
        omega
      have hall : s.Reads ([] ++ ls ++ r.current :: rs) s₂ :=
        left.reads.append (htaken.append hright.reads)
      refine ensures_blame fun limit _ => ?_
      exact .operator hall hkind left.derives hright.derives hopens
        (congrArg Prod.fst hright.at_end) hsettled hmax

theorem chain_blames {level : Level} {operand : Rule Expr}
    (hoperand : Meets operand (.operand level) levels)
    (hblames : Blames operand (.operand level) levels) :
    Blames (chain level operand) (.chain level) levels := by
  intro t s r hat hready hopens hdepth
  have hopens' : t.Opens (.operand level) := fun last hlast => (hopens last hlast).operand
  refine Ensures.bind ((hoperand t s r hat hready).mix (hblames t s r hat hready hopens' hdepth)) ?_
  rintro left r₁ ⟨ls, s₁, hleft, hheight, -⟩
  refine ensures_get ?_
  rw [hheight]
  exact chainFrom_blamesDepth hoperand hblames hready.expects hopens hdepth hleft.ofOperand

/-! ## Factors -/

theorem group_blamesDepth {inner : Rule Expr} (hblames : Blames inner .expression levels)
    (hat : r.At s) (ht : t.ExpectsOperand) (hkind : r.current.kind = .leftParen)
    (hdepth : levels + 1 + t.depth = depthLimit) :
    Ensures (group (some inner)) r (fun _ _ => True) (t.BlamesDepth s) := by
  have hmore : r.current.kind ≠ .endOfInput := by simp [hkind]
  have hopened : t.Run [r.current] ⟨some r.current, t.depth + 1⟩ := .opening ht hkind
  have hopens : (⟨some r.current, t.depth + 1⟩ : Standing).Opens .expression := by
    intro last hlast
    obtain rfl := Option.some.inj hlast
    simp [Settled, hkind, Token.Kind.operatorAt?]
  refine Ensures.bind (advance_blamesDepth r) ?_
  rintro opening r₁ ⟨rfl, hat₁, -, -, -⟩
  dsimp only
  unfold groupBody
  refine ensures_get ?_
  split
  · refine ensures_get ?_
    exact ensures_blame_bind (Standing.blamesDepth_of_ne (by simp))
  · next hnonempty =>
    have hready : Ready ⟨some r.current, t.depth + 1⟩ r₁.current := ready_of_leftParen hkind hnonempty
    have hinside := hblames _ _ { r₁ with groupDepth := r₁.groupDepth + 1 } hat₁ hready hopens
      (by omega : levels + (t.depth + 1) = depthLimit)
    refine ensures_modify ?_
    refine Ensures.bind (hinside.blamesDepth_after hopened (.single hat hmore)) ?_
    rintro e r₂ -
    refine ensures_modify ?_
    refine ensures_get ?_
    split
    · refine Ensures.bind (advance_blamesDepth _) ?_
      rintro closing r₃ -
      exact ensures_pure trivial
    · refine ensures_get ?_
      exact ensures_blame (Standing.blamesDepth_of_ne (by simp))

theorem factor_blames
    (hinner : ∀ below, levels = below + 1 → Blames (expressionWithin below) .expression below) :
    Blames (factor (inner levels)) .factor levels := by
  intro t s r hat hready _ hdepth
  unfold factor
  refine ensures_get ?_
  dsimp only
  split
  · exact number_blamesDepth
  · next hkind =>
    cases levels with
    | zero =>
      -- there is no level left for the group, so as many groups are open as may be
      have hmore : r.current.kind ≠ .endOfInput := by simp [hkind]
      refine Ensures.bind (advance_blamesDepth r) ?_
      rintro opening r' ⟨rfl, -⟩
      refine ensures_blame fun limit _ => ?_
      have hfull : unclosed t.depth [] = depthLimit := (Nat.zero_add _).symm.trans hdepth
      exact .group (.single hat hmore) hkind hfull
    | succ below =>
      exact group_blamesDepth (hinner below rfl) hat hready.expects hkind hdepth
  · exact ensures_blame (Standing.blamesDepth_of_ne (by simp))
  · exact ensures_blame (Standing.blamesDepth_of_ne (by simp))

theorem factor_meets_levels (levels : Nat) : Meets (factor (inner levels)) .factor levels :=
  factor_meets fun below _ => expressionWithin_meets below

theorem expressionWithin_blames (levels : Nat) :
    Blames (expressionWithin levels) .expression levels := by
  have hchains : ∀ levels, Blames (factor (inner levels)) .factor levels →
      Blames (expressionWithin levels) .expression levels := by
    intro levels hfactor
    have hmeets : Meets (chain .product (factor (inner levels))) (.chain .product) levels :=
      chain_meets (factor_meets_levels levels)
    have hblames : Blames (chain .product (factor (inner levels))) (.chain .product) levels :=
      chain_blames (factor_meets_levels levels) hfactor
    have hexpression : Blames (chain .sum (chain .product (factor (inner levels)))) (.chain .sum)
        levels := chain_blames hmeets hblames
    rw [expressionWithin_eq]
    exact hexpression
  induction levels with
  | zero => exact hchains 0 (factor_blames fun below h => absurd h.symm (Nat.succ_ne_zero below))
  | succ levels ih => exact hchains _ (factor_blames fun below h => Nat.succ.inj h ▸ ih)

/-! ## Whole texts -/

theorem complete_blamesDepth {s : Scanner} {r : Reader} (hat : r.At s) (hdepth : r.groupDepth = 0) :
    Ensures complete r (fun _ _ => True) (Standing.start.BlamesDepth s) := by
  have hexpression : Ensures expression r (fun _ _ => True) (Standing.start.BlamesDepth s) := by
    unfold expression
    refine ensures_get ?_
    rw [hdepth, Nat.sub_zero]
    have hlevels : depthLimit + Standing.start.depth = depthLimit := by simp [Standing.start]
    exact expressionWithin_blames depthLimit .start s r hat (ready_start _)
      (Standing.opens_start _) hlevels
  refine Ensures.bind hexpression ?_
  rintro e r' -
  refine ensures_get ?_
  dsimp only
  split
  · exact ensures_pure trivial
  · exact ensures_blame (Standing.blamesDepth_of_ne (by simp))

end Reader

/-- Where parsing a text blames the depth, a token oversteps a limit. -/
theorem Expr.blamesDepth_of_parse {source : List Char} {fault : Fault}
    (h : Expr.parse source = .error fault) :
    Grammar.Standing.start.BlamesDepth (.ofSource source) fault := by
  rcases parse_cases source with ⟨first, hscan, hfault⟩ | ⟨r, hat, hdepth, hparse⟩
  · rw [hfault] at h
    obtain rfl := Except.error.inj h
    exact Grammar.Standing.blamesDepth_of_scan hscan
  · have hspec := Reader.complete_blamesDepth hat hdepth
    rw [hparse] at h
    unfold Reader.Ensures at hspec
    split at h
    · cases h
    · next fault' r' hrule =>
      rw [hrule] at hspec
      obtain rfl := Except.error.inj h
      exact hspec

end Calculator
