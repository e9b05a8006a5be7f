import Calculator.Proofs.Grammar.Standing
import Calculator.Proofs.Token.Pieces

/-!
# Nodes in their context

A node of a derived expression has tokens of its own, one stretch of all the tokens, and its span
goes from the first of them to the last. Since a factor can stand wherever something is derived, any
factor can take the place of these tokens, and the tree changes at the node only
(`Derives.surrounds`).
-/

namespace Calculator

open Grammar

namespace Token

theorem InOrder.of_append {left right : List Token} (h : InOrder (left ++ right)) :
    InOrder left ∧ InOrder right ∧
      ∀ a ∈ left, ∀ b ∈ right, a.span.stop ≤ b.span.start := by
  obtain ⟨hsizes, hpairs⟩ := h
  obtain ⟨hleft, hright, hcross⟩ := List.pairwise_append.mp hpairs
  exact ⟨⟨fun a ha => hsizes a (List.mem_append_left _ ha), hleft⟩,
    ⟨fun b hb => hsizes b (List.mem_append_right _ hb), hright⟩, hcross⟩

theorem InOrder.middle {before inner after : List Token} (h : InOrder (before ++ inner ++ after)) :
    InOrder inner :=
  h.of_append.1.of_append.2.1

theorem InOrder.tail {token : Token} {tokens : List Token} (h : InOrder (token :: tokens)) :
    InOrder tokens ∧ ∀ b ∈ tokens, token.span.stop ≤ b.span.start := by
  obtain ⟨-, htail, hcross⟩ : InOrder [token] ∧ InOrder tokens ∧
      ∀ a ∈ [token], ∀ b ∈ tokens, a.span.stop ≤ b.span.start := InOrder.of_append h
  exact ⟨htail, hcross token List.mem_cons_self⟩

end Token

theorem Span.cover_of_le {a b : Span} (hstart : a.start ≤ b.start) (hstop : a.stop ≤ b.stop) :
    a.cover b = ⟨a.start, b.stop⟩ := by
  rw [Span.cover, Nat.min_eq_left hstart, Nat.max_eq_right hstop]

namespace Grammar

/-- A derived expression spans from the first of its tokens to the last. -/
theorem Derives.span_eq {nonterminal : Nonterminal} {tokens : List Token} {e : Expr}
    (h : Derives nonterminal tokens e) (horder : Token.InOrder tokens) :
    ∃ first last, tokens.head? = some first ∧ tokens.getLast? = some last ∧
      e.span = ⟨first.span.start, last.span.stop⟩ := by
  have hjoin : ∀ {ls rs : List Token} {token : Token} {operator : Operator} {l r : Expr},
      Token.InOrder (ls ++ token :: rs) →
      (∃ first last, ls.head? = some first ∧ ls.getLast? = some last ∧
        l.span = ⟨first.span.start, last.span.stop⟩) →
      (∃ first last, rs.head? = some first ∧ rs.getLast? = some last ∧
        r.span = ⟨first.span.start, last.span.stop⟩) →
      ∃ first last, (ls ++ token :: rs).head? = some first ∧
        (ls ++ token :: rs).getLast? = some last ∧
        (Expr.join l operator r).span = ⟨first.span.start, last.span.stop⟩ := by
    rintro ls rs token operator l r horder ⟨a, b, ha, hb, hl⟩ ⟨c, d, hc, hd, hr⟩
    obtain ⟨hleft, hright, hcross⟩ := horder.of_append
    have hac : a.span.stop ≤ c.span.start :=
      hcross a (List.mem_of_head? ha) c (List.mem_cons_of_mem _ (List.mem_of_head? hc))
    have hbd : b.span.stop ≤ d.span.start :=
      hcross b (List.mem_of_getLast? hb) d (List.mem_cons_of_mem _ (List.mem_of_getLast? hd))
    have hasize := hleft.1 a (List.mem_of_head? ha)
    have hdsize := hright.1 d (List.mem_cons_of_mem _ (List.mem_of_getLast? hd))
    refine ⟨a, d, by simp [List.head?_append, ha],
      by simp [List.getLast?_append, List.getLast?_cons, hd], ?_⟩
    show l.span.cover r.span = _
    rw [hl, hr]
    exact Span.cover_of_le (hasize.trans hac) (hbd.trans hdsize)
  induction h with
  | @number token _ _ _ => exact ⟨token, token, rfl, rfl, rfl⟩
  -- the parentheses are the first token and the last, and the span of the inside is given up
  | @group opening closing tokens e _ _ _ _ =>
    have hcross : opening.span.stop ≤ closing.span.start := horder.tail.2 closing (by simp)
    have hosize : opening.span.start ≤ opening.span.stop := horder.1 opening (by simp)
    have hcsize : closing.span.start ≤ closing.span.stop := horder.1 closing (by simp)
    refine ⟨opening, closing, rfl, by rw [← List.cons_append, List.getLast?_concat], ?_⟩
    rw [Expr.span_withSpan]
    exact Span.cover_of_le (hosize.trans hcross) (hcross.trans hcsize)
  | factor _ ih | term _ ih => exact ih horder
  | product _ _ _ _ ihl ihr | sum _ _ _ _ ihl ihr =>
    obtain ⟨hleft, hright, -⟩ := horder.of_append
    exact hjoin horder (ihl hleft) (ihr hright.tail.1)

/-- A node has tokens of its own among others, and any factor can stand in their place. Then the
shape of the whole changes at the path of the node. -/
def Surrounds (nonterminal : Nonterminal) (tokens : List Token) (shape : Shape) (path : List Side)
    (node : Expr) : Prop :=
  ∃ before inner after own, tokens = before ++ inner ++ after ∧ Derives own inner node ∧
    ∀ others new, Derives .factor others new →
      ∃ e, Derives nonterminal (before ++ others ++ after) e ∧
        e.shape = Shape.replace new.shape shape path

theorem Derives.surrounds_root {nonterminal : Nonterminal} {tokens : List Token} {e node : Expr}
    (h : Derives nonterminal tokens e) (hat : e.at? [] = some node) :
    Surrounds nonterminal tokens e.shape [] node := by
  obtain rfl : e = node := by simpa using hat
  refine ⟨[], tokens, [], nonterminal, by simp, h, fun others new hothers => ⟨new, ?_, ?_⟩⟩
  · simpa using hothers.ofFactor
  · cases e.shape <;> rfl

theorem Surrounds.mono {nonterminal nonterminal' : Nonterminal} {tokens : List Token}
    {shape : Shape} {path : List Side} {node : Expr}
    (h : Surrounds nonterminal tokens shape path node)
    (hderives : ∀ tokens e, Derives nonterminal tokens e → Derives nonterminal' tokens e) :
    Surrounds nonterminal' tokens shape path node := by
  obtain ⟨before, inner, after, own, htokens, hinner, hreplace⟩ := h
  refine ⟨before, inner, after, own, htokens, hinner, fun others new hothers => ?_⟩
  obtain ⟨e, he, hshape⟩ := hreplace others new hothers
  exact ⟨e, hderives _ _ he, hshape⟩

theorem Surrounds.group {tokens : List Token} {shape : Shape} {path : List Side} {node : Expr}
    {opening closing : Token} (h : Surrounds .expression tokens shape path node)
    (hopening : opening.kind = .leftParen) (hclosing : closing.kind = .rightParen) :
    Surrounds .factor (opening :: (tokens ++ [closing])) shape path node := by
  obtain ⟨before, inner, after, own, rfl, hinner, hreplace⟩ := h
  refine ⟨opening :: before, inner, after ++ [closing], own, by simp, hinner, ?_⟩
  intro others new hothers
  obtain ⟨e, he, hshape⟩ := hreplace others new hothers
  have hgroup := Derives.group hopening he hclosing
  exact ⟨_, by simpa using hgroup, by rw [Expr.shape_withSpan, hshape]⟩

section

variable {level : Level} {ls rs : List Token} {token : Token} {operator : Operator} {l r node : Expr}
  {path : List Side}

theorem Surrounds.join_left (hkind : token.kind = .operator operator)
    (hlevel : operator.level = level) (h : Surrounds (.chain level) ls l.shape path node)
    (right : Derives (.operand level) rs r) :
    Surrounds (.chain level) (ls ++ token :: rs) (l.join operator r).shape (.left :: path) node := by
  obtain ⟨before, inner, after, own, rfl, hinner, hreplace⟩ := h
  refine ⟨before, inner, after ++ token :: rs, own, by simp, hinner, ?_⟩
  intro others new hothers
  obtain ⟨e, he, hshape⟩ := hreplace others new hothers
  have hjoin := he.join hkind hlevel right
  refine ⟨_, by simpa using hjoin, ?_⟩
  rw [Expr.shape_join, Expr.shape_join, hshape, Shape.replace]

theorem Surrounds.join_right (hkind : token.kind = .operator operator)
    (hlevel : operator.level = level) (left : Derives (.chain level) ls l)
    (h : Surrounds (.operand level) rs r.shape path node) :
    Surrounds (.chain level) (ls ++ token :: rs) (l.join operator r).shape (.right :: path) node := by
  obtain ⟨before, inner, after, own, rfl, hinner, hreplace⟩ := h
  refine ⟨ls ++ token :: before, inner, after, own, by simp, hinner, ?_⟩
  intro others new hothers
  obtain ⟨e, he, hshape⟩ := hreplace others new hothers
  have hjoin := left.join hkind hlevel he
  refine ⟨_, by simpa using hjoin, ?_⟩
  rw [Expr.shape_join, Expr.shape_join, hshape, Shape.replace]

end

/-- Every node of a derived expression has its tokens. -/
theorem Derives.surrounds {nonterminal : Nonterminal} {tokens : List Token} {e node : Expr}
    {path : List Side} (h : Derives nonterminal tokens e) (hat : e.at? path = some node) :
    Surrounds nonterminal tokens e.shape path node := by
  -- the induction goes down the path; rules that make no node leave it as it is
  induction h generalizing path with
  | number hkind hvalue =>
    cases path with
    | nil => exact (Derives.number hkind hvalue).surrounds_root hat
    | cons side path => cases side <;> cases hat
  | @group opening closing tokens e hopening inner hclosing ih =>
    cases path with
    | nil => exact (Derives.group hopening inner hclosing).surrounds_root hat
    | cons side path =>
      rw [Expr.at?_withSpan_cons] at hat
      rw [Expr.shape_withSpan]
      exact (ih hat).group hopening hclosing
  | factor _ ih => exact (ih hat).mono fun _ _ => .factor
  | term _ ih => exact (ih hat).mono fun _ _ => .term
  | product left hkind hlevel right ihl ihr =>
    cases path with
    | nil => exact (Derives.product left hkind hlevel right).surrounds_root hat
    | cons side path =>
      cases side with
      | left => exact .join_left hkind hlevel (ihl hat) right
      | right => exact .join_right hkind hlevel left (ihr hat)
  | sum left hkind hlevel right ihl ihr =>
    cases path with
    | nil => exact (Derives.sum left hkind hlevel right).surrounds_root hat
    | cons side path =>
      cases side with
      | left => exact .join_left hkind hlevel (ihl hat) right
      | right => exact .join_right hkind hlevel left (ihr hat)

end Grammar

end Calculator
