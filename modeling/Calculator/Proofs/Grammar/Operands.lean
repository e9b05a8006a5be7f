import Calculator.Proofs.Expr.Nodes
import Calculator.Proofs.Grammar.Context

/-!
# Operands and places

A derivation says in which tokens a node and its operands lie: those of a binary node are opening
parentheses, the tokens of the left operand, the operator, the tokens of the right operand, and as many
closing parentheses (`Derives.exists_operands`). Moving the tokens moves the spans of what they derive,
and nothing else (`Derives.shift`).
-/

namespace Calculator

theorem Span.shift_cover (offset : Nat) (a b : Span) :
    (a.cover b).shift offset = (a.shift offset).cover (b.shift offset) := by
  simp [Span.shift, Span.cover, Nat.add_min_add_left, Nat.add_max_add_left]

namespace Expr

/-- An expression, moved to the right. -/
def shift (offset : Nat) : Expr → Expr
  | .number value span => .number value (span.shift offset)
  | .binary left operator right span =>
    .binary (left.shift offset) operator (right.shift offset) (span.shift offset)

@[simp] theorem span_shift (offset : Nat) (e : Expr) :
    (e.shift offset).span = e.span.shift offset := by
  cases e <;> rfl

theorem shift_withSpan (offset : Nat) (span : Span) (e : Expr) :
    (e.withSpan span).shift offset = (e.shift offset).withSpan (span.shift offset) := by
  cases e <;> rfl

theorem shift_join (offset : Nat) (left right : Expr) (operator : Operator) :
    (join left operator right).shift offset =
      join (left.shift offset) operator (right.shift offset) := by
  simp [join, shift, Span.shift_cover]

@[simp] theorem height_shift (offset : Nat) (e : Expr) : (e.shift offset).height = e.height := by
  induction e with
  | number _ _ => rfl
  | binary left _ right _ ihl ihr => simp only [shift, height, ihl, ihr]

end Expr

namespace Token

/-- No token starts before the first one. -/
theorem InOrder.start_le {tokens : List Token} {first token : Token} (h : InOrder tokens)
    (hfirst : tokens.head? = some first) (htoken : token ∈ tokens) :
    first.span.start ≤ token.span.start := by
  obtain ⟨others, rfl⟩ := List.head?_eq_some_iff.mp hfirst
  rcases List.mem_cons.mp htoken with rfl | hmem
  · exact Nat.le_refl _
  · exact (h.1 first List.mem_cons_self).trans (h.tail.2 token hmem)

/-- No token stops behind the last one. -/
theorem InOrder.stop_le {tokens : List Token} {last token : Token} (h : InOrder tokens)
    (hlast : tokens.getLast? = some last) (htoken : token ∈ tokens) :
    token.span.stop ≤ last.span.stop := by
  obtain ⟨others, rfl⟩ := List.getLast?_eq_some_iff.mp hlast
  obtain ⟨-, hend, hcross⟩ := h.of_append
  rcases List.mem_append.mp htoken with hmem | hmem
  · have hle := hcross token hmem last List.mem_cons_self
    exact hle.trans (hend.1 last List.mem_cons_self)
  · obtain rfl := List.mem_singleton.mp hmem
    exact Nat.le_refl _

end Token

namespace Grammar

theorem Derives.shift {nonterminal : Nonterminal} {tokens : List Token} {e : Expr}
    (h : Derives nonterminal tokens e) (offset : Nat) :
    Derives nonterminal (tokens.map (Token.shift offset)) (e.shift offset) := by
  induction h with
  | number hkind hvalue => exact .number hkind hvalue
  | group hopening inner hclosing ih =>
    rw [List.map_cons, List.map_append, List.map_singleton, Expr.shift_withSpan, Span.shift_cover]
    exact .group hopening ih hclosing
  | factor _ ih => exact .factor ih
  | term _ ih => exact .term ih
  | product _ hkind hlevel _ ihl ihr =>
    rw [List.map_append, List.map_cons, Expr.shift_join]
    exact .product ihl hkind hlevel ihr
  | sum _ hkind hlevel _ ihl ihr =>
    rw [List.map_append, List.map_cons, Expr.shift_join]
    exact .sum ihl hkind hlevel ihr

/-- The tokens of a binary node: those of its operands with the operator between them, within equally
many parentheses on both sides. -/
theorem Derives.exists_operands {nonterminal : Nonterminal} {tokens : List Token} {l r : Expr}
    {operator : Operator} {span : Span}
    (h : Derives nonterminal tokens (.binary l operator r span)) :
    ∃ opening ls token rs closing, tokens = opening ++ ls ++ token :: rs ++ closing ∧
      (∀ other ∈ opening, other.kind = .leftParen) ∧ (∀ other ∈ closing, other.kind = .rightParen) ∧
      opening.length = closing.length ∧ token.kind = .operator operator ∧
      Derives .expression ls l ∧ Derives .expression rs r := by
  generalize he : Expr.binary l operator r span = e at h
  induction h generalizing span with
  | number => cases he
  | @group first last tokens e hopening _ hclosing ih =>
    cases e with
    | number => cases he
    | binary l' operator' r' span' =>
      obtain ⟨rfl, rfl, rfl, -⟩ := Expr.binary.inj he
      obtain ⟨opening, ls, token, rs, closing, rfl, hopenings, hclosings, hlength, hoperator, hl, hr⟩ :=
        ih rfl
      refine ⟨first :: opening, ls, token, rs, closing ++ [last], by simp,
        List.forall_mem_cons.mpr ⟨hopening, hopenings⟩, ?_, by simp [hlength], hoperator, hl, hr⟩
      exact List.forall_mem_append.mpr ⟨hclosings, by simpa using hclosing⟩
  | factor _ ih | term _ ih => exact ih he
  | @product ls rs token _ _ _ left hkind _ right _ _
  | @sum ls rs token _ _ _ left hkind _ right _ _ =>
    obtain ⟨rfl, rfl, rfl, -⟩ := Expr.binary.inj he
    exact ⟨[], ls, token, rs, [], by simp, by simp, by simp, rfl, hkind, left.toExpression,
      right.toExpression⟩

/-- What is derived from some of the tokens spans no more than what is derived from all of them. -/
theorem Derives.span_within {outer inner : Nonterminal} {all before tokens after : List Token}
    {e node : Expr} (h : Derives outer all e) (horder : Token.InOrder all)
    (hinner : Derives inner tokens node) (hall : all = before ++ tokens ++ after) :
    e.span.start ≤ node.span.start ∧ node.span.stop ≤ e.span.stop := by
  subst hall
  obtain ⟨first, last, hfirst, hlast, hspan⟩ := h.span_eq horder
  obtain ⟨first', last', hfirst', hlast', hspan'⟩ := hinner.span_eq horder.middle
  rw [hspan, hspan']
  refine ⟨horder.start_le hfirst ?_, horder.stop_le hlast ?_⟩
  · simp [List.mem_of_head? hfirst']
  · simp [List.mem_of_getLast? hlast']

/-- What is derived from tokens behind others starts behind what those derive. -/
theorem Derives.span_apart {left right : Nonterminal} {all before ls between rs after : List Token}
    {l r : Expr} (hleft : Derives left ls l) (hright : Derives right rs r)
    (horder : Token.InOrder all) (hall : all = before ++ ls ++ (between ++ rs ++ after)) :
    l.span.stop ≤ r.span.start := by
  subst hall
  obtain ⟨hbefore, hbehind, hcross⟩ := horder.of_append
  obtain ⟨_, last, _, hlast, hspan⟩ := hleft.span_eq hbefore.of_append.2.1
  obtain ⟨first, _, hfirst, _, hspan'⟩ := hright.span_eq hbehind.middle
  rw [hspan, hspan']
  refine hcross last ?_ first ?_
  · simp [List.mem_of_getLast? hlast]
  · simp [List.mem_of_head? hfirst]

/-- The tokens of a node among those of an expression. -/
theorem Derives.exists_inner {nonterminal : Nonterminal} {tokens : List Token} {e node : Expr}
    (h : Derives nonterminal tokens e) (hnode : node ∈ e.nodes) :
    ∃ before inner after, tokens = before ++ inner ++ after ∧ Derives .expression inner node := by
  obtain ⟨path, hat⟩ := Expr.mem_nodes_iff.mp hnode
  obtain ⟨before, inner, after, own, htokens, hinner, -⟩ := h.surrounds hat
  exact ⟨before, inner, after, htokens, hinner.toExpression⟩

end Grammar

end Calculator
