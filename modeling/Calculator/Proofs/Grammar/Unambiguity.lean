import Calculator.Proofs.Grammar.Standing

/-!
# The grammar is unambiguous

A list of tokens derives at most one expression (`Derives.unique`). The point is where a chain of
operands can be taken apart: at its last operator outside all groups. An operand has no operator of
its level, or of a looser one, outside all groups (`Derives.outer_operator`), so no other place is
possible (`join_split_unique`).
-/

namespace Calculator.Grammar

theorem append_cons_cases {α : Type} {as bs cs ds : List α} {a b : α}
    (h : as ++ a :: bs = cs ++ b :: ds) :
    (as = cs ∧ a = b ∧ bs = ds) ∨ (∃ ms, cs = as ++ a :: ms ∧ bs = ms ++ b :: ds) ∨
      ∃ ms, as = cs ++ b :: ms ∧ ds = ms ++ a :: bs := by
  rcases List.append_eq_append_iff.mp h with ⟨ms, rfl, hrest⟩ | ⟨ms, rfl, hrest⟩
  · rcases List.cons_eq_append_iff.mp hrest with ⟨rfl, hrest⟩ | ⟨ms, rfl, hrest⟩
    · obtain ⟨rfl, rfl⟩ := List.cons.inj hrest
      exact Or.inl ⟨(List.append_nil _).symm, rfl, rfl⟩
    · exact Or.inr (Or.inl ⟨ms, rfl, (List.cons.inj hrest).2⟩)
  · rcases List.cons_eq_append_iff.mp hrest with ⟨rfl, hrest⟩ | ⟨ms, rfl, hrest⟩
    · obtain ⟨rfl, rfl⟩ := List.cons.inj hrest
      exact Or.inl ⟨List.append_nil _, rfl, rfl⟩
    · exact Or.inr (Or.inr ⟨ms, rfl, (List.cons.inj hrest).2⟩)

/-- The levels of the operators that may stand outside all groups. -/
def Nonterminal.Shows : Nonterminal → Level → Prop
  | .expression, _ => True
  | .term, level => level = .product
  | .factor, _ => False

theorem unclosed_inside_pos {tokens before after : List Token} {opening : Token} {e : Expr}
    (hopening : opening.kind = .leftParen) (inner : Derives .expression tokens e)
    (htokens : tokens = before ++ after) : 0 < unclosed 0 (opening :: before) := by
  -- a run that starts with no open group closes none of those around it
  obtain ⟨last, -, -, hrun⟩ := inner.run Standing.expectsOperand_start
  rw [htokens] at hrun
  obtain ⟨t, hbefore, -⟩ := hrun.split
  have hdepth : t.depth + 1 = unclosed (0 + 1) before := (hbefore.within 1).depth_eq
  rw [unclosed_cons, nest_leftParen hopening, ← hdepth]
  exact Nat.succ_pos _

theorem Derives.unclosed_join {nonterminal : Nonterminal} {ls ms : List Token} {token : Token}
    {operator : Operator} {l : Expr} (left : Derives nonterminal ls l)
    (hkind : token.kind = .operator operator) (depth : Nat) :
    unclosed depth (ls ++ token :: ms) = unclosed depth ms := by
  rw [unclosed_append, left.unclosed_eq, unclosed_cons, nest_operator hkind]

/-- Outside all groups only operators of the levels of the nonterminal stand. -/
theorem Derives.outer_operator {nonterminal : Nonterminal} {tokens before after : List Token}
    {token : Token} {operator : Operator} {e : Expr} (h : Derives nonterminal tokens e)
    (htokens : tokens = before ++ token :: after) (hkind : token.kind = .operator operator)
    (houter : unclosed 0 before = 0) : nonterminal.Shows operator.level := by
  induction h generalizing before after with
  | number hnumber =>
    rcases List.append_eq_singleton_iff.mp htokens.symm with ⟨-, h⟩ | ⟨-, h⟩
    · obtain ⟨rfl, -⟩ := List.cons.inj h
      simp [hnumber] at hkind
    · exact absurd h (List.cons_ne_nil _ _)
  | group hopening inner hclosing _ =>
    cases before with
    | nil =>
      obtain ⟨rfl, -⟩ := List.cons.inj htokens
      simp [hopening] at hkind
    | cons first before =>
      obtain ⟨rfl, hrest⟩ := List.cons.inj htokens
      rcases append_cons_cases hrest with ⟨-, rfl, -⟩ | ⟨ms, -, h⟩ | ⟨ms, hinside, -⟩
      · simp [hclosing] at hkind
      · simp at h
      · exact absurd houter (Nat.ne_of_gt (unclosed_inside_pos hopening inner hinside))
  | factor _ ih => exact (ih htokens houter).elim
  | term _ _ => trivial
  | product left hop hlevel right ihl ihr =>
    rcases append_cons_cases htokens with ⟨-, rfl, -⟩ | ⟨ms, rfl, h⟩ | ⟨ms, h, -⟩
    · obtain rfl := Token.Kind.operator.inj (hop.symm.trans hkind)
      exact hlevel
    · rw [left.unclosed_join hop] at houter
      exact (ihr h houter).elim
    · exact ihl h houter
  | sum _ _ _ _ _ _ => trivial

/-- A chain comes apart at one operator only. -/
theorem join_split_unique {chain operand : Nonterminal} {ls rs ls' rs' : List Token}
    {token token' : Token} {operator operator' : Operator} {l r l' r' : Expr}
    (left : Derives chain ls l) (hkind : token.kind = .operator operator)
    (right : Derives operand rs r) (hhidden : ¬ operand.Shows operator.level)
    (left' : Derives chain ls' l') (hkind' : token'.kind = .operator operator')
    (right' : Derives operand rs' r') (hhidden' : ¬ operand.Shows operator'.level)
    (h : ls ++ token :: rs = ls' ++ token' :: rs') : ls = ls' ∧ token = token' ∧ rs = rs' := by
  rcases append_cons_cases h with heq | ⟨ms, hls, hrs⟩ | ⟨ms, hls, hrs⟩
  · exact heq
  -- otherwise one of the operators stands in an operand of the other, outside all groups
  · have houter := left'.unclosed_eq 0
    rw [hls, left.unclosed_join hkind] at houter
    exact absurd (right.outer_operator hrs hkind' houter) hhidden'
  · have houter := left.unclosed_eq 0
    rw [hls, left'.unclosed_join hkind'] at houter
    exact absurd (right'.outer_operator hrs hkind houter) hhidden

theorem Derives.unique_of_eq {nonterminal : Nonterminal} {tokens tokens' : List Token}
    {e e' : Expr} (h : Derives nonterminal tokens e) (h' : Derives nonterminal tokens' e')
    (htokens : tokens = tokens') : e = e' := by
  induction h generalizing tokens' e' with
  | number hkind hvalue =>
    cases h' with
    | number _ hvalue' =>
      obtain rfl := List.singleton_inj.mp htokens
      obtain rfl := Option.some.inj (hvalue.symm.trans hvalue')
      rfl
    | group => simp at htokens
  | group _ _ _ ih =>
    cases h' with
    | number => simp at htokens
    | group _ inner' _ =>
      obtain ⟨rfl, hrest⟩ := List.cons.inj htokens
      obtain ⟨hinner, hclosing⟩ := List.append_inj' hrest rfl
      obtain rfl := List.singleton_inj.mp hclosing
      rw [ih inner' hinner]
  -- a chain of one operand and a longer one differ in the operators outside all groups
  | factor only ih =>
    cases h' with
    | factor only' => exact ih only' htokens
    | product left' hkind' _ _ =>
      exact (only.outer_operator htokens hkind' (left'.unclosed_eq 0)).elim
  | term only ih =>
    cases h' with
    | term only' => exact ih only' htokens
    | sum left' hkind' hlevel' _ =>
      have hshows := only.outer_operator htokens hkind' (left'.unclosed_eq 0)
      simp [Nonterminal.Shows, hlevel'] at hshows
  | product left hkind hlevel right ihl ihr =>
    cases h' with
    | factor only' =>
      exact (only'.outer_operator htokens.symm hkind (left.unclosed_eq 0)).elim
    | product left' hkind' _ right' =>
      obtain ⟨hls, rfl, hrs⟩ :=
        join_split_unique left hkind right id left' hkind' right' id htokens
      obtain rfl := Token.Kind.operator.inj (hkind.symm.trans hkind')
      rw [ihl left' hls, ihr right' hrs]
  | sum left hkind hlevel right ihl ihr =>
    cases h' with
    | term only' =>
      have hshows := only'.outer_operator htokens.symm hkind (left.unclosed_eq 0)
      simp [Nonterminal.Shows, hlevel] at hshows
    | sum left' hkind' hlevel' right' =>
      obtain ⟨hls, rfl, hrs⟩ := join_split_unique left hkind right
        (by simp [Nonterminal.Shows, hlevel]) left' hkind' right'
        (by simp [Nonterminal.Shows, hlevel']) htokens
      obtain rfl := Token.Kind.operator.inj (hkind.symm.trans hkind')
      rw [ihl left' hls, ihr right' hrs]

/-- A list of tokens has one reading. -/
theorem Derives.unique {nonterminal : Nonterminal} {tokens : List Token} {e e' : Expr}
    (h : Derives nonterminal tokens e) (h' : Derives nonterminal tokens e') : e = e' :=
  h.unique_of_eq h' rfl

theorem Sentence.unique {tokens : List Token} {shape shape' : Shape} (h : Sentence tokens shape)
    (h' : Sentence tokens shape') : shape = shape' := by
  obtain ⟨e, he, rfl⟩ := h
  obtain ⟨e', he', rfl⟩ := h'
  rw [he.unique he']

end Calculator.Grammar
