import Calculator.Proofs.Grammar.Derivation

/-!
# Between two tokens

How much of a source has to be remembered to say which token may come next: the token before, and
how many groups are open. `Standing.Run` steps from token to token. It accepts every list of tokens
that derives something (`Derives.run`), and all that a derivation leaves behind is its last token.

`NestsWithin` bounds how many groups may be open where another one opens. It is stated through the
lists in front of an opening parenthesis and used token by token (`nestsWithin_cons`).
-/

namespace Calculator.Grammar

/-! ## Open groups -/

/-- The number of open groups behind a token. -/
def nest (depth : Nat) (token : Token) : Nat :=
  match token.kind with
  | .leftParen => depth + 1
  | .rightParen => depth - 1
  | _ => depth

/-- The number of open groups behind a list of tokens. -/
def unclosed (depth : Nat) (tokens : List Token) : Nat :=
  tokens.foldl nest depth

@[simp] theorem unclosed_nil (depth : Nat) : unclosed depth [] = depth := rfl

@[simp] theorem unclosed_cons (depth : Nat) (token : Token) (tokens : List Token) :
    unclosed depth (token :: tokens) = unclosed (nest depth token) tokens := rfl

theorem unclosed_append (depth : Nat) (left right : List Token) :
    unclosed depth (left ++ right) = unclosed (unclosed depth left) right :=
  List.foldl_append

theorem nest_eq_of_symbol {a b : Token} (h : symbol a = symbol b) (depth : Nat) :
    nest depth a = nest depth b := by
  unfold nest
  rw [kind_eq_of_symbol h]

theorem nest_operator {depth : Nat} {token : Token} {operator : Operator}
    (hkind : token.kind = .operator operator) : nest depth token = depth := by
  simp [nest, hkind]

theorem nest_leftParen {depth : Nat} {token : Token} (hkind : token.kind = .leftParen) :
    nest depth token = depth + 1 := by
  simp [nest, hkind]

/-- No group opens where `limit` groups or more are open already. -/
def NestsWithin (limit depth : Nat) (tokens : List Token) : Prop :=
  ∀ before token after, tokens = before ++ token :: after → token.kind = .leftParen →
    unclosed depth before < limit

theorem nestsWithin_nil (limit depth : Nat) : NestsWithin limit depth [] := by
  intro before token after h
  simp at h

theorem nestsWithin_cons {limit depth : Nat} {token : Token} {tokens : List Token} :
    NestsWithin limit depth (token :: tokens) ↔
      (token.kind = .leftParen → depth < limit) ∧ NestsWithin limit (nest depth token) tokens := by
  constructor
  · intro h
    refine ⟨fun hkind => h [] token tokens rfl hkind, ?_⟩
    intro before other after htokens hkind
    exact h (token :: before) other after (by rw [htokens, List.cons_append]) hkind
  · rintro ⟨hfirst, hrest⟩ before other after htokens hkind
    cases before with
    | nil =>
      obtain ⟨rfl, -⟩ := List.cons.inj htokens
      exact hfirst hkind
    | cons first before =>
      obtain ⟨rfl, htail⟩ := List.cons.inj htokens
      exact hrest before other after htail hkind

theorem nestsWithin_append {limit depth : Nat} {left right : List Token} :
    NestsWithin limit depth (left ++ right) ↔
      NestsWithin limit depth left ∧ NestsWithin limit (unclosed depth left) right := by
  induction left generalizing depth with
  | nil => simp [nestsWithin_nil]
  | cons token left ih =>
    rw [List.cons_append, nestsWithin_cons, nestsWithin_cons, ih, unclosed_cons, and_assoc]

theorem nestsWithin_of_symbol {limit depth : Nat} {tokens others : List Token}
    (hsame : others.map symbol = tokens.map symbol) (h : NestsWithin limit depth tokens) :
    NestsWithin limit depth others := by
  induction tokens generalizing others depth with
  | nil =>
    obtain rfl := List.map_eq_nil_iff.mp hsame
    exact nestsWithin_nil _ _
  | cons token tokens ih =>
    obtain ⟨other, rest, rfl, ho, hrest⟩ := List.map_eq_cons_iff.mp hsame
    obtain ⟨hfirst, htail⟩ := nestsWithin_cons.mp h
    refine nestsWithin_cons.mpr ⟨fun hkind => hfirst ((kind_eq_of_symbol ho) ▸ hkind), ?_⟩
    rw [nest_eq_of_symbol ho]
    exact ih hrest htail

theorem unclosed_mono {low high : Nat} (h : low ≤ high) (tokens : List Token) :
    unclosed low tokens ≤ unclosed high tokens := by
  induction tokens generalizing low high with
  | nil => exact h
  | cons token tokens ih =>
    refine ih ?_
    unfold nest
    split <;> omega

/-- What nests within a limit deep inside nests within it further outside. -/
theorem NestsWithin.mono {limit low high : Nat} {tokens : List Token}
    (h : NestsWithin limit high tokens) (hle : low ≤ high) : NestsWithin limit low tokens := by
  intro before token after htokens hkind
  exact Nat.lt_of_le_of_lt (unclosed_mono hle before) (h before token after htokens hkind)

theorem NestsWithin.of_limit_le {limit limit' depth : Nat} {tokens : List Token}
    (h : NestsWithin limit depth tokens) (hle : limit ≤ limit') : NestsWithin limit' depth tokens := by
  intro before token after htokens hkind
  exact Nat.lt_of_lt_of_le (h before token after htokens hkind) hle

/-- Some of the tokens nest no deeper than all of them. -/
theorem NestsWithin.middle {limit : Nat} {before inner after : List Token}
    (h : NestsWithin limit 0 (before ++ inner ++ after)) : NestsWithin limit 0 inner := by
  obtain ⟨hboth, -⟩ := nestsWithin_append.mp h
  obtain ⟨-, hinner⟩ := nestsWithin_append.mp hboth
  exact hinner.mono (Nat.zero_le _)

/-! ## Standings -/

/-- Whether an operand is complete with a token of this kind. -/
def endsOperand : Token.Kind → Bool
  | .integer | .rightParen => true
  | _ => false

/-- Where a reading stands: behind which token, and within how many groups. -/
structure Standing where
  last : Option Token
  depth : Nat

namespace Standing

/-- Before the first token. -/
def start : Standing := ⟨none, 0⟩

/-- Whether an operand has to come next. -/
def ExpectsOperand (s : Standing) : Prop :=
  ∀ token, s.last = some token → endsOperand token.kind = false

/-- Whether a token may come next. The end of the input may only follow a whole expression. -/
def Admits (s : Standing) (token : Token) : Prop :=
  match token.kind with
  | .integer => s.ExpectsOperand ∧ token.value.isSome
  | .leftParen => s.ExpectsOperand
  | .operator _ => ¬ s.ExpectsOperand
  | .rightParen => ¬ s.ExpectsOperand ∧ 0 < s.depth
  | .endOfInput => ¬ s.ExpectsOperand ∧ s.depth = 0

/-- The standing behind a token. -/
def next (s : Standing) (token : Token) : Standing := ⟨some token, nest s.depth token⟩

/-- Tokens lead from one standing to another, each admitted where it stands. -/
inductive Run : Standing → List Token → Standing → Prop where
  | nil (s : Standing) : Run s [] s
  | cons {s t : Standing} {token : Token} {tokens : List Token}
      (hmore : token.kind ≠ .endOfInput) (hadmits : s.Admits token)
      (rest : Run (s.next token) tokens t) : Run s (token :: tokens) t

theorem expectsOperand_start : start.ExpectsOperand := by
  intro token h
  simp [start] at h

theorem expectsOperand_some {token : Token} {depth : Nat} :
    (⟨some token, depth⟩ : Standing).ExpectsOperand ↔ endsOperand token.kind = false := by
  simp [ExpectsOperand]

theorem expectsOperand_next {s : Standing} {token : Token} :
    (s.next token).ExpectsOperand ↔ endsOperand token.kind = false :=
  expectsOperand_some

theorem expectsOperand_operator {token : Token} {operator : Operator} {depth : Nat}
    (hkind : token.kind = .operator operator) :
    (⟨some token, depth⟩ : Standing).ExpectsOperand := by
  simp [expectsOperand_some, endsOperand, hkind]

theorem expectsOperand_leftParen {token : Token} {depth : Nat} (hkind : token.kind = .leftParen) :
    (⟨some token, depth⟩ : Standing).ExpectsOperand := by
  simp [expectsOperand_some, endsOperand, hkind]

theorem admits_operator {last token : Token} {operator : Operator} {depth : Nat}
    (hends : endsOperand last.kind = true) (hkind : token.kind = .operator operator) :
    (⟨some last, depth⟩ : Standing).Admits token := by
  simp [Admits, hkind, expectsOperand_some, hends]

theorem admits_leftParen {s : Standing} {token : Token} (hs : s.ExpectsOperand)
    (hkind : token.kind = .leftParen) : s.Admits token := by
  simp [Admits, hkind, hs]

theorem Run.append {s t u : Standing} {left right : List Token} (hleft : Run s left t)
    (hright : Run t right u) : Run s (left ++ right) u := by
  induction hleft with
  | nil => exact hright
  | cons hmore hadmits _ ih => exact .cons hmore hadmits (ih hright)

theorem Run.split {s u : Standing} {left right : List Token} (h : Run s (left ++ right) u) :
    ∃ t, Run s left t ∧ Run t right u := by
  induction left generalizing s with
  | nil => exact ⟨s, .nil s, h⟩
  | cons token left ih =>
    cases h with
    | cons hmore hadmits rest =>
      obtain ⟨t, hleft, hright⟩ := ih rest
      exact ⟨t, .cons hmore hadmits hleft, hright⟩

theorem Run.unique {s t u : Standing} {tokens : List Token} (ht : Run s tokens t)
    (hu : Run s tokens u) : t = u := by
  induction ht with
  | nil =>
    cases hu with
    | nil => rfl
  | cons _ _ _ ih =>
    cases hu with
    | cons _ _ rest => exact ih rest

theorem Run.single {s : Standing} {token : Token} (hmore : token.kind ≠ .endOfInput)
    (hadmits : s.Admits token) : Run s [token] (s.next token) :=
  .cons hmore hadmits (.nil _)

/-- Behind a whole operand an operator can follow. -/
theorem Run.operator {last token : Token} {operator : Operator} {depth : Nat}
    (hends : endsOperand last.kind = true) (hkind : token.kind = .operator operator) :
    Run ⟨some last, depth⟩ [token] ⟨some token, depth⟩ := by
  have hadmits : (⟨some last, depth⟩ : Standing).Admits token := admits_operator hends hkind
  have hrun := Run.single (by simp [hkind]) hadmits
  rwa [next, nest_operator hkind] at hrun

/-- Where an operand has to come a group can open. -/
theorem Run.opening {s : Standing} {token : Token} (hs : s.ExpectsOperand)
    (hkind : token.kind = .leftParen) : Run s [token] ⟨some token, s.depth + 1⟩ := by
  have hrun := Run.single (by simp [hkind]) (admits_leftParen hs hkind)
  rwa [next, nest_leftParen hkind] at hrun

/-- What a run does to the number of open groups is what its tokens do. -/
theorem Run.depth_eq {s t : Standing} {tokens : List Token} (h : Run s tokens t) :
    t.depth = unclosed s.depth tokens := by
  induction h with
  | nil => rfl
  | cons _ _ _ ih => exact ih

theorem Run.last_eq {s t : Standing} {tokens : List Token} (h : Run s tokens t) :
    t.last = tokens.getLast?.or s.last := by
  induction h with
  | nil => rfl
  | @cons _ _ token tokens _ _ _ ih =>
    rw [ih, List.getLast?_cons]
    cases tokens.getLast? <;> rfl

/-- The end of the input is not passed. -/
theorem Run.more {s t : Standing} {tokens : List Token} (h : Run s tokens t) :
    ∀ token ∈ tokens, token.kind ≠ .endOfInput := by
  induction h with
  | nil => simp
  | cons hmore _ _ ih => exact List.forall_mem_cons.mpr ⟨hmore, ih⟩

/-! ## More groups around a run -/

/-- The same standing inside further groups. -/
def within (s : Standing) (depth : Nat) : Standing := ⟨s.last, s.depth + depth⟩

theorem Admits.within {s : Standing} {token : Token} (hmore : token.kind ≠ .endOfInput)
    (h : s.Admits token) (depth : Nat) : (s.within depth).Admits token := by
  unfold Admits at h ⊢
  split at h
  · exact h
  · exact h
  · exact h
  · exact ⟨h.1, Nat.lt_add_right depth h.2⟩
  · next hkind => exact absurd hkind hmore

theorem nest_within {s : Standing} {token : Token} (h : s.Admits token) (depth : Nat) :
    nest (s.depth + depth) token = nest s.depth token + depth := by
  unfold Admits at h
  unfold nest
  split
  · omega
  · next hkind =>
    rw [hkind] at h
    have hpos : 0 < s.depth := h.2
    omega
  · rfl

/-- Groups around a run change none of its steps. -/
theorem Run.within {s t : Standing} {tokens : List Token} (h : Run s tokens t) (depth : Nat) :
    Run (s.within depth) tokens (t.within depth) := by
  induction h with
  | nil => exact .nil _
  | @cons s t token tokens hmore hadmits _ ih =>
    refine .cons hmore (hadmits.within hmore depth) ?_
    have hnext : (s.within depth).next token = (s.next token).within depth :=
      congrArg (Standing.mk (some token)) (nest_within hadmits depth)
    rw [hnext]
    exact ih

/-- The groups around a run count against its limit. -/
theorem Run.nestsWithin_within {s t : Standing} {tokens : List Token} (h : Run s tokens t)
    (limit depth : Nat) :
    NestsWithin (limit + depth) (s.depth + depth) tokens ↔ NestsWithin limit s.depth tokens := by
  induction h with
  | nil => simp [nestsWithin_nil]
  | cons _ hadmits _ ih =>
    rw [nestsWithin_cons, nestsWithin_cons, nest_within hadmits depth, Nat.add_lt_add_iff_right]
    exact and_congr_right fun _ => ih

end Standing

/-! ## Derivations run -/

/-- Behind a whole operand, an operator and another operand can follow. -/
theorem Standing.Run.join {s : Standing} {ls rs : List Token} {token l r : Token}
    {operator : Operator} (hkind : token.kind = .operator operator)
    (hl : endsOperand l.kind = true) (left : Run s ls ⟨some l, s.depth⟩)
    (right : Run ⟨some token, s.depth⟩ rs ⟨some r, s.depth⟩) :
    Run s (ls ++ token :: rs) ⟨some r, s.depth⟩ := by
  have hboth := left.append (Run.operator hl hkind)
  simpa using hboth.append right

/-- Tokens that derive something are admitted one by one where an operand has to come. They leave
behind the last of them, with which an operand is complete, and no more open groups. -/
theorem Derives.run {nonterminal : Nonterminal} {tokens : List Token} {e : Expr}
    (h : Derives nonterminal tokens e) {s : Standing} (hs : s.ExpectsOperand) :
    ∃ last, tokens.getLast? = some last ∧ endsOperand last.kind = true ∧
      s.Run tokens ⟨some last, s.depth⟩ := by
  induction h generalizing s with
  | @number token value hkind hvalue =>
    have hadmits : s.Admits token := by simp [Standing.Admits, hkind, hs, hvalue]
    have hrun := Standing.Run.single (by simp [hkind]) hadmits
    have hdepth : nest s.depth token = s.depth := by simp [nest, hkind]
    rw [Standing.next, hdepth] at hrun
    exact ⟨token, rfl, by simp [endsOperand, hkind], hrun⟩
  | @group opening closing tokens e hopening _ hclosing ih =>
    obtain ⟨last, hlast, hends, hrun⟩ :=
      ih (s := ⟨some opening, s.depth + 1⟩) (Standing.expectsOperand_leftParen hopening)
    have hout : (⟨some last, s.depth + 1⟩ : Standing).Admits closing := by
      simp [Standing.Admits, hclosing, Standing.expectsOperand_some, hends]
    have hclose := Standing.Run.single (by simp [hclosing]) hout
    have hback : nest (s.depth + 1) closing = s.depth := by simp [nest, hclosing]
    rw [Standing.next, hback] at hclose
    refine ⟨closing, ?_, by simp [endsOperand, hclosing],
      (Standing.Run.opening hs hopening).append (hrun.append hclose)⟩
    rw [← List.cons_append, List.getLast?_concat]
  | factor _ ih => exact ih hs
  | term _ ih => exact ih hs
  | product _ hkind _ _ ihl ihr | sum _ hkind _ _ ihl ihr =>
    obtain ⟨l, -, hl, left⟩ := ihl hs
    obtain ⟨r, hlast, hr, right⟩ := ihr (Standing.expectsOperand_operator hkind)
    exact ⟨r, by simp [List.getLast?_append, List.getLast?_cons, hlast], hr, left.join hkind hl right⟩

/-! ## Open groups of derivations -/

/-- As many groups are open behind a derivation as before it. -/
theorem Derives.unclosed_eq {nonterminal : Nonterminal} {tokens : List Token} {e : Expr}
    (h : Derives nonterminal tokens e) (depth : Nat) : unclosed depth tokens = depth := by
  obtain ⟨last, -, -, hrun⟩ := h.run (s := ⟨none, depth⟩) (by simp [Standing.ExpectsOperand])
  exact hrun.depth_eq.symm

theorem Derives.nestsWithin_join {nonterminal : Nonterminal} {ls rs : List Token} {token : Token}
    {operator : Operator} {l : Expr} (left : Derives nonterminal ls l)
    (hkind : token.kind = .operator operator) (limit depth : Nat) :
    NestsWithin limit depth (ls ++ token :: rs) ↔
      NestsWithin limit depth ls ∧ NestsWithin limit depth rs := by
  rw [nestsWithin_append, nestsWithin_cons, left.unclosed_eq, nest_operator hkind]
  simp [hkind]

/-- A group may hold what nests one level less. -/
theorem Derives.nestsWithin_group {tokens : List Token} {e : Expr} {opening closing : Token}
    (hopening : opening.kind = .leftParen) (inner : Derives .expression tokens e)
    (hclosing : closing.kind = .rightParen) (limit : Nat) :
    NestsWithin (limit + 1) 0 (opening :: (tokens ++ [closing])) ↔ NestsWithin limit 0 tokens := by
  obtain ⟨last, -, -, hrun⟩ := inner.run Standing.expectsOperand_start
  rw [nestsWithin_cons, nest_leftParen hopening, nestsWithin_append, nestsWithin_cons]
  have hlast : closing.kind ≠ .leftParen := by simp [hclosing]
  simp only [Nat.zero_lt_succ, hlast, nestsWithin_nil, implies_true, false_implies, true_and,
    and_true]
  exact hrun.nestsWithin_within limit 1

end Calculator.Grammar
