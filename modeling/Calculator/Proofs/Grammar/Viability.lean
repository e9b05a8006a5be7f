import Calculator.Proofs.Grammar.Standing

/-!
# Viable lists of tokens

A list of tokens is viable if more tokens can make it a sentence. These are exactly the lists that
`Standing.Run` accepts from the start (`viable_iff_run`), so viability is decided token by token,
by the token before and the number of open groups.

The harder half completes a list that was accepted. `Open` takes such a list apart: into the groups
that are still open, and in each of them an expression with an operator behind it, or nothing.
Whatever expression comes next, the open groups can then be closed one after the other
(`Open.exists_completion`).
-/

namespace Calculator.Grammar

/-- More tokens can make a sentence of these. -/
def Viable (tokens : List Token) : Prop :=
  ∃ rest e, Derives .expression (tokens ++ rest) e

/-! ## Expressions joined by any operator -/

theorem Derives.join_factor {ls rs : List Token} {token : Token} {operator : Operator} {l r : Expr}
    (left : Derives .expression ls l) (hkind : token.kind = .operator operator)
    (right : Derives .factor rs r) : ∃ e, Derives .expression (ls ++ token :: rs) e := by
  cases hlevel : operator.level with
  | sum => exact ⟨_, .sum left hkind hlevel (.factor right)⟩
  | product =>
    cases left with
    | term left => exact ⟨_, .term (.product left hkind hlevel right)⟩
    | @sum ls ms other operator' l m left hkind' hlevel' middle =>
      -- a tighter operator takes only the last term of the expression in front of it
      have joined := Derives.sum left hkind' hlevel' (.product middle hkind hlevel right)
      exact ⟨_, by simpa using joined⟩

/-- Two expressions with an operator between them are an expression, whatever binds tighter. -/
theorem Derives.join_any {nonterminal : Nonterminal} {ls rs : List Token} {token : Token}
    {operator : Operator} {l r : Expr} (left : Derives .expression ls l)
    (hkind : token.kind = .operator operator) (right : Derives nonterminal rs r) :
    ∃ e, Derives .expression (ls ++ token :: rs) e := by
  induction right generalizing ls token operator l with
  | number hinteger hvalue => exact left.join_factor hkind (.number hinteger hvalue)
  | group hopening inner hclosing _ => exact left.join_factor hkind (.group hopening inner hclosing)
  | factor _ ih | term _ ih => exact ih left hkind
  | product _ hkind' _ _ ihl ihr | sum _ hkind' _ _ ihl ihr =>
    obtain ⟨m, middle⟩ := ihl left hkind
    obtain ⟨e, he⟩ := ihr middle hkind'
    exact ⟨e, by simpa using he⟩

/-! ## Lists that wait for an operand -/

/-- Tokens behind which an operand has to come, with a number of groups open. -/
inductive Open : List Token → Nat → Prop where
  | start : Open [] 0
  | group {tokens : List Token} {depth : Nat} {opening : Token} (outer : Open tokens depth)
      (hopening : opening.kind = .leftParen) : Open (tokens ++ [opening]) (depth + 1)
  | operator {tokens ls : List Token} {depth : Nat} {token : Token} {operator : Operator} {l : Expr}
      (outer : Open tokens depth) (left : Derives .expression ls l)
      (hkind : token.kind = .operator operator) : Open (tokens ++ (ls ++ [token])) depth

/-- The group that an expression stands in can be closed behind it. -/
theorem Open.close {tokens rs : List Token} {depth : Nat} {closing : Token} {r : Expr}
    (h : Open tokens (depth + 1)) (right : Derives .expression rs r)
    (hclosing : closing.kind = .rightParen) :
    ∃ outer inner e, Open outer depth ∧ Derives .expression inner e ∧
      tokens ++ rs ++ [closing] = outer ++ inner := by
  generalize hdepth : depth + 1 = above at h
  induction h generalizing rs r with
  | start => exact absurd hdepth (Nat.succ_ne_zero _)
  | @group tokens below opening outer hopening _ =>
    obtain rfl := Nat.succ.inj hdepth
    exact ⟨tokens, _, _, outer, .term (.factor (.group hopening right hclosing)), by simp⟩
  | operator outer left hkind ih =>
    obtain ⟨m, joined⟩ := left.join_any hkind right
    obtain ⟨before, inner, e, hbefore, hinner, h⟩ := ih joined hdepth
    exact ⟨before, inner, e, hbefore, hinner, by simpa using h⟩

/-- Once an operand has come, the open groups can be closed. -/
theorem Open.exists_completion {tokens rs : List Token} {depth : Nat} {r : Expr}
    (h : Open tokens depth) (right : Derives .expression rs r) :
    ∃ rest e, Derives .expression (tokens ++ rs ++ rest) e := by
  induction h generalizing rs r with
  | start => exact ⟨[], r, by simpa using right⟩
  | @group tokens depth opening _ hopening ih =>
    have hclosing : (Token.mark .rightParen ')' 0).kind = .rightParen := rfl
    obtain ⟨rest, e, he⟩ := ih (.term (.factor (.group hopening right hclosing)))
    exact ⟨.mark .rightParen ')' 0 :: rest, e, by simpa using he⟩
  | operator _ left hkind ih =>
    obtain ⟨m, joined⟩ := left.join_any hkind right
    obtain ⟨rest, e, he⟩ := ih joined
    exact ⟨rest, e, by simpa using he⟩

/-- With no group open there is nothing to close. -/
theorem Open.derives {tokens rs : List Token} {r : Expr} (h : Open tokens 0)
    (right : Derives .expression rs r) : ∃ e, Derives .expression (tokens ++ rs) e := by
  generalize hdepth : 0 = depth at h
  induction h generalizing rs r with
  | start => exact ⟨r, right⟩
  | group => cases hdepth
  | operator _ left hkind ih =>
    obtain ⟨m, joined⟩ := left.join_any hkind right
    obtain ⟨e, he⟩ := ih joined hdepth
    exact ⟨e, by simpa using he⟩

/-- What an accepted list of tokens is made of. -/
inductive Reached : List Token → Standing → Prop where
  | before {tokens : List Token} {s : Standing} (hopen : Open tokens s.depth)
      (hs : s.ExpectsOperand) : Reached tokens s
  | behind {tokens ls : List Token} {s : Standing} {l : Expr} (hopen : Open tokens s.depth)
      (left : Derives .expression ls l) (hs : ¬ s.ExpectsOperand) : Reached (tokens ++ ls) s

theorem Reached.next {tokens : List Token} {s : Standing} {token : Token} (h : Reached tokens s)
    (hmore : token.kind ≠ .endOfInput) (hadmits : s.Admits token) :
    Reached (tokens ++ [token]) (s.next token) := by
  unfold Standing.Admits at hadmits
  split at hadmits
  · next hkind =>
    -- a number completes an operand
    obtain ⟨value, hvalue⟩ := Option.isSome_iff_exists.mp hadmits.2
    cases h with
    | before hopen _ =>
      refine .behind (by simpa [Standing.next, nest, hkind] using hopen)
        (.term (.factor (.number hkind hvalue))) ?_
      simp [Standing.expectsOperand_next, endsOperand, hkind]
    | behind _ _ hs => exact absurd hadmits.1 hs
  · next hkind =>
    -- an opening parenthesis adds a group to the open ones
    cases h with
    | before hopen _ =>
      refine .before ?_ (by simp [Standing.expectsOperand_next, endsOperand, hkind])
      simpa [Standing.next, nest, hkind] using Open.group hopen hkind
    | behind _ _ hs => exact absurd hadmits hs
  · next hkind =>
    -- an operator leaves the expression in front of it waiting
    cases h with
    | before _ hs => exact absurd hs hadmits
    | behind hopen left _ =>
      refine .before ?_ (by simp [Standing.expectsOperand_next, endsOperand, hkind])
      simpa [Standing.next, nest, hkind] using Open.operator hopen left hkind
  · next hkind =>
    -- a closing parenthesis makes an operand of the group
    cases h with
    | before _ hs => exact absurd hs hadmits.1
    | @behind _ _ _ _ hopen left _ =>
      obtain ⟨depth, hdepth⟩ := Nat.exists_eq_succ_of_ne_zero (Nat.ne_of_gt hadmits.2)
      rw [hdepth] at hopen
      obtain ⟨outer, inner, e, houter, hinner, htokens⟩ := hopen.close left hkind
      rw [htokens]
      refine .behind ?_ hinner ?_
      · simpa [Standing.next, nest, hkind, hdepth] using houter
      · simp [Standing.expectsOperand_next, endsOperand, hkind]
  · next hkind => exact absurd hkind hmore

theorem Reached.run {before tokens : List Token} {s t : Standing} (h : Reached before s)
    (hrun : s.Run tokens t) : Reached (before ++ tokens) t := by
  induction hrun generalizing before with
  | nil => simpa using h
  | cons hmore hadmits _ ih =>
    have hrest := ih (h.next hmore hadmits)
    simpa using hrest

theorem Reached.viable {tokens : List Token} {s : Standing} (h : Reached tokens s) :
    Viable tokens := by
  cases h with
  | before hopen _ =>
    have hzero : (Token.integer ⟨0, by decide, by decide⟩ ['0'] (.single 0)).kind = .integer := rfl
    obtain ⟨rest, e, he⟩ := hopen.exists_completion (.term (.factor (.number hzero rfl)))
    exact ⟨_, e, by simpa using he⟩
  | behind hopen left _ => exact hopen.exists_completion left

/-- The viable lists of tokens are those that are admitted token by token. -/
theorem viable_iff_run {tokens : List Token} :
    Viable tokens ↔ ∃ s, Standing.start.Run tokens s := by
  constructor
  · rintro ⟨rest, e, he⟩
    obtain ⟨last, -, -, hrun⟩ := he.run Standing.expectsOperand_start
    obtain ⟨s, hs, -⟩ := hrun.split
    exact ⟨s, hs⟩
  · rintro ⟨s, hrun⟩
    have hstart : Reached [] Standing.start := .before .start Standing.expectsOperand_start
    exact (hstart.run hrun).viable

theorem Viable.of_append {tokens rest : List Token} (h : Viable (tokens ++ rest)) :
    Viable tokens := by
  obtain ⟨more, e, he⟩ := h
  exact ⟨rest ++ more, e, by rwa [← List.append_assoc]⟩

/-! ## What may follow -/

/-- The token goes on with these to something viable. The end of the input only follows a whole
sentence. -/
def MayFollow (before : List Token) (token : Token) : Prop :=
  if token.kind = .endOfInput then ∃ shape, Sentence before shape else Viable (before ++ [token])

theorem sentence_iff_admits_end {before : List Token} {s : Standing}
    (hrun : Standing.start.Run before s) :
    (∃ shape, Sentence before shape) ↔ ¬ s.ExpectsOperand ∧ s.depth = 0 := by
  constructor
  · rintro ⟨_, e, he, -⟩
    obtain ⟨last, -, hends, hrun'⟩ := he.run Standing.expectsOperand_start
    obtain rfl := hrun.unique hrun'
    exact ⟨by simp [Standing.expectsOperand_some, hends], rfl⟩
  · rintro ⟨hs, hdepth⟩
    have hstart : Reached [] Standing.start := .before .start Standing.expectsOperand_start
    have hreached : Reached before s := hstart.run hrun
    cases hreached with
    | before _ hexpects => exact absurd hexpects hs
    | behind hopen left _ =>
      rw [hdepth] at hopen
      obtain ⟨e, he⟩ := hopen.derives left
      exact ⟨e.shape, e, he, rfl⟩

/-- What may follow is what is admitted next. -/
theorem mayFollow_iff_admits {before : List Token} {s : Standing} {token : Token}
    (hrun : Standing.start.Run before s) : MayFollow before token ↔ s.Admits token := by
  unfold MayFollow
  split
  · next hend => rw [sentence_iff_admits_end hrun, Standing.Admits, hend]
  · next hmore =>
    rw [viable_iff_run]
    constructor
    · rintro ⟨t, hboth⟩
      obtain ⟨s', hbefore, htoken⟩ := hboth.split
      obtain rfl := hrun.unique hbefore
      cases htoken with
      | cons _ hadmits _ => exact hadmits
    · intro hadmits
      exact ⟨_, hrun.append (.single hmore hadmits)⟩

end Calculator.Grammar
