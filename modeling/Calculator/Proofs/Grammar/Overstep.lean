import Calculator.Expr.Reader
import Calculator.Proofs.Grammar.Operands
import Calculator.Proofs.Grammar.Unambiguity

/-!
# Tokens that overstep a limit

A sentence oversteps the limit on groups at every opening parenthesis in front of which as many groups
are open as may be, and the limit on heights at every operator whose node is one level too high. The
first shows at the parenthesis itself, the second when the right operand of the operator is complete
(`Oversteps`).

A sentence beyond the limits has one token at which this shows first (`OverstepsFirst`). It is found by
going down the derivation: an offender in the left operand comes before everything else, and one in the
right operand before the operator, which for its part comes first if the operands have none.
-/

namespace Calculator

namespace Token

/-- Tokens in order, of at least one byte each. -/
structure Apart (tokens : List Token) : Prop where
  inOrder : InOrder tokens
  nonempty : ∀ token ∈ tokens, token.span.start < token.span.stop

theorem Apart.of_append {left right : List Token} (h : Apart (left ++ right)) :
    Apart left ∧ Apart right := by
  obtain ⟨hleft, hright, -⟩ := h.inOrder.of_append
  obtain ⟨hleft', hright'⟩ := List.forall_mem_append.mp h.nonempty
  exact ⟨⟨hleft, hleft'⟩, ⟨hright, hright'⟩⟩

theorem Apart.tail {token : Token} {tokens : List Token} (h : Apart (token :: tokens)) :
    Apart tokens :=
  ⟨h.inOrder.tail.1, (List.forall_mem_cons.mp h.nonempty).2⟩

end Token

namespace Expr

theorem binary_mem_nodes {left right node : Expr} {operator : Operator} {span : Span} :
    node ∈ (binary left operator right span).nodes ↔
      node ∈ left.nodes ∨ node ∈ right.nodes ∨ node = .binary left operator right span := by
  rw [nodes, List.mem_append, List.mem_append, List.mem_singleton, or_assoc]

theorem self_mem_nodes (e : Expr) : e ∈ e.nodes :=
  mem_nodes_iff.mpr ⟨[], at?_nil e⟩

/-- The operands of a node are nodes too. -/
theorem operands_mem_nodes {e l r : Expr} {operator : Operator} {span : Span}
    (h : .binary l operator r span ∈ e.nodes) : l ∈ e.nodes ∧ r ∈ e.nodes := by
  induction e with
  | number value span => simp [nodes] at h
  | binary left operator' right span' ihl ihr =>
    simp only [binary_mem_nodes] at h ⊢
    rcases h with h | h | h
    · exact (ihl h).imp Or.inl Or.inl
    · exact (ihr h).imp (Or.inr ∘ Or.inl) (Or.inr ∘ Or.inl)
    · obtain ⟨rfl, -, rfl, -⟩ := Expr.binary.inj h
      exact ⟨Or.inl l.self_mem_nodes, Or.inr (Or.inl r.self_mem_nodes)⟩

theorem height_le_of_mem_nodes {e node : Expr} (h : node ∈ e.nodes) : node.height ≤ e.height := by
  obtain ⟨path, hat⟩ := mem_nodes_iff.mp h
  exact height_le_of_at? hat

/-- Another span makes no difference to the operands of a node. -/
theorem exists_mem_nodes_withSpan {e l r : Expr} {operator : Operator} {span : Span} :
    (∃ own, .binary l operator r own ∈ (e.withSpan span).nodes) ↔
      ∃ own, .binary l operator r own ∈ e.nodes := by
  cases e with
  | number value own => simp [withSpan, nodes]
  | binary left operator' right own =>
    simp only [withSpan, binary_mem_nodes, Expr.binary.injEq, exists_or]
    simp

end Expr

namespace Grammar

/-! ## Offenders -/

/-- A token that oversteps a limit inside so many groups, and the place at which this shows. -/
inductive Oversteps (depth : Nat) (tokens : List Token) (e : Expr) : Token → Nat → Prop where
  /-- A group opens where as many are open as may be. -/
  | group {before after : List Token} {opening : Token} (htokens : tokens = before ++ opening :: after)
      (hkind : opening.kind = .leftParen) (hdepth : unclosed depth before = depthLimit) :
      Oversteps depth tokens e opening opening.span.stop
  /-- An operator joins its operands to a node that is one level too high. -/
  | operator {token : Token} {operator : Operator} {l r : Expr} {span : Span} (htoken : token ∈ tokens)
      (hkind : token.kind = .operator operator) (hnode : .binary l operator r span ∈ e.nodes)
      (hleft : l.span.stop ≤ token.span.start) (hright : token.span.stop ≤ r.span.start)
      (hheight : (Expr.binary l operator r span).height = depthLimit + 1) :
      Oversteps depth tokens e token r.span.stop

/-- The token that is the first to overstep a limit. -/
def OverstepsFirst (depth : Nat) (tokens : List Token) (e : Expr) (token : Token) (place : Nat) :
    Prop :=
  Oversteps depth tokens e token place ∧
    ∀ other place', Oversteps depth tokens e other place' →
      (other = token ∧ place' = place) ∨ place < place'

/-- Tokens are within the limits inside so many groups. -/
def WithinLimits (depth : Nat) (tokens : List Token) (e : Expr) : Prop :=
  NestsWithin depthLimit depth tokens ∧ e.height ≤ depthLimit

variable {depth : Nat} {tokens : List Token} {e : Expr} {token : Token} {place : Nat}

theorem WithinLimits.not_oversteps (h : WithinLimits depth tokens e) :
    ¬ Oversteps depth tokens e token place := by
  rintro (⟨htokens, hkind, hdepth⟩ | ⟨-, -, hnode, -, -, hheight⟩)
  · exact absurd hdepth (Nat.ne_of_lt (h.1 _ _ _ htokens hkind))
  · have hle := (Expr.height_le_of_mem_nodes hnode).trans h.2
    omega

/-! ## Places -/

theorem Derives.token_within {nonterminal : Nonterminal} (h : Derives nonterminal tokens e)
    (horder : Token.InOrder tokens) (hmem : token ∈ tokens) :
    e.span.start ≤ token.span.start ∧ token.span.stop ≤ e.span.stop := by
  obtain ⟨first, last, hfirst, hlast, hspan⟩ := h.span_eq horder
  rw [hspan]
  exact ⟨horder.start_le hfirst hmem, horder.stop_le hlast hmem⟩

/-- A node lies within its expression and takes up at least one byte. -/
theorem Derives.node_within {nonterminal : Nonterminal} {node : Expr}
    (h : Derives nonterminal tokens e) (hapart : Token.Apart tokens) (hnode : node ∈ e.nodes) :
    e.span.start ≤ node.span.start ∧ node.span.start < node.span.stop ∧
      node.span.stop ≤ e.span.stop := by
  obtain ⟨before, inner, after, rfl, hinner⟩ := h.exists_inner hnode
  obtain ⟨hstart, hstop⟩ := h.span_within hapart.inOrder hinner rfl
  have hown := hapart.of_append.1.of_append.2
  obtain ⟨first, _, hfirst, -⟩ := hinner.span_eq hown.inOrder
  have hmem : first ∈ inner := List.mem_of_head? hfirst
  have hwithin := hinner.token_within hown.inOrder hmem
  have hpos := hown.nonempty first hmem
  exact ⟨hstart, by omega, hstop⟩

/-- An overstep shows behind the start of its expression, at its end at the latest. -/
theorem Oversteps.place_within {nonterminal : Nonterminal} (h : Oversteps depth tokens e token place)
    (he : Derives nonterminal tokens e) (hapart : Token.Apart tokens) :
    e.span.start < place ∧ place ≤ e.span.stop := by
  cases h with
  | group htokens _ _ =>
    have hmem : token ∈ tokens := by simp [htokens]
    have hwithin := he.token_within hapart.inOrder hmem
    have hpos := hapart.nonempty token hmem
    omega
  | operator _ _ hnode _ _ _ =>
    have hwithin := he.node_within hapart (Expr.operands_mem_nodes hnode).2
    omega

/-! ## Operands -/

section

variable {chain operand : Nonterminal} {ls rs : List Token} {operator : Operator} {l r : Expr}
  {other : Token}

theorem Derives.join_places (left : Derives chain ls l) (right : Derives operand rs r)
    (horder : Token.InOrder (ls ++ token :: rs)) :
    l.span.stop ≤ token.span.start ∧ token.span.stop ≤ r.span.start := by
  obtain ⟨hls, hrs, hcross⟩ := horder.of_append
  obtain ⟨_, last, _, hlast, hl⟩ := left.span_eq hls
  obtain ⟨first, _, hfirst, _, hr⟩ := right.span_eq hrs.tail.1
  rw [hl, hr]
  exact ⟨hcross last (List.mem_of_getLast? hlast) token List.mem_cons_self,
    hrs.tail.2 first (List.mem_of_head? hfirst)⟩

/-- What oversteps a limit oversteps it in one of two operands, or is the operator between them. -/
theorem Oversteps.of_join (left : Derives chain ls l) (hkind : token.kind = .operator operator)
    (right : Derives operand rs r) (hapart : Token.Apart (ls ++ token :: rs))
    (h : Oversteps depth (ls ++ token :: rs) (.join l operator r) other place) :
    Oversteps depth ls l other place ∨ Oversteps depth rs r other place ∨
      (other = token ∧ max l.height r.height = depthLimit ∧ place = r.span.stop) := by
  obtain ⟨hls, hrs⟩ := hapart.of_append
  have hplaces := left.join_places right hapart.inOrder
  have htoken : token.span.start < token.span.stop := hapart.nonempty token (by simp)
  cases h with
  | @group before after _ htokens hopening hdepth =>
    rcases append_cons_cases htokens with ⟨-, rfl, -⟩ | ⟨ms, rfl, hms⟩ | ⟨ms, hms, -⟩
    · simp [hkind] at hopening
    · rw [left.unclosed_join hkind] at hdepth
      exact Or.inr (Or.inl (.group hms hopening hdepth))
    · exact Or.inl (.group hms hopening hdepth)
  | @operator _ operator' l' r' span' hmem hkind' hnode hbefore hbehind hheight =>
    have hother := hapart.nonempty other hmem
    -- an operator lies between its operands, and so among the tokens of what they are operands in
    have hmem' : other ∈ ls ∧ other.span.stop ≤ l.span.stop ∨ other = token ∨
        other ∈ rs ∧ r.span.start ≤ other.span.start := by
      rcases List.mem_append.mp hmem with hls' | hrest
      · exact Or.inl ⟨hls', (left.token_within hls.inOrder hls').2⟩
      · rcases List.mem_cons.mp hrest with rfl | hrs'
        · exact Or.inr (Or.inl rfl)
        · exact Or.inr (Or.inr ⟨hrs', (right.token_within hrs.tail.inOrder hrs').1⟩)
    rcases Expr.binary_mem_nodes.mp hnode with hnode | hnode | hnode
    · have hwithin := left.node_within hls (Expr.operands_mem_nodes hnode).2
      rcases hmem' with ⟨hls', -⟩ | rfl | ⟨-, hstart⟩
      · exact Or.inl (.operator hls' hkind' hnode hbefore hbehind hheight)
      · omega
      · omega
    · have hwithin := right.node_within hrs.tail (Expr.operands_mem_nodes hnode).1
      rcases hmem' with ⟨-, hstop⟩ | rfl | ⟨hrs', -⟩
      · omega
      · omega
      · exact Or.inr (Or.inl (.operator hrs' hkind' hnode hbefore hbehind hheight))
    · obtain ⟨rfl, -, rfl, -⟩ := Expr.binary.inj hnode
      rcases hmem' with ⟨-, hstop⟩ | rfl | ⟨-, hstart⟩
      · omega
      · exact Or.inr (Or.inr ⟨rfl, Nat.succ.inj hheight, rfl⟩)
      · omega

theorem Oversteps.join_left (h : Oversteps depth ls l other place) :
    Oversteps depth (ls ++ token :: rs) (.join l operator r) other place := by
  cases h with
  | @group before after _ htokens hopening hdepth =>
    have htokens' : ls ++ token :: rs = before ++ other :: (after ++ token :: rs) := by
      simp [htokens]
    exact .group htokens' hopening hdepth
  | operator hmem hkind' hnode hbefore hbehind hheight =>
    exact .operator (List.mem_append_left _ hmem) hkind' (Expr.binary_mem_nodes.mpr (Or.inl hnode))
      hbefore hbehind hheight

theorem Oversteps.join_right (left : Derives chain ls l) (hkind : token.kind = .operator operator)
    (h : Oversteps depth rs r other place) :
    Oversteps depth (ls ++ token :: rs) (.join l operator r) other place := by
  cases h with
  | @group before after _ htokens hopening hdepth =>
    have htokens' : ls ++ token :: rs = (ls ++ token :: before) ++ other :: after := by
      simp [htokens]
    exact .group htokens' hopening ((left.unclosed_join hkind depth).trans hdepth)
  | operator hmem hkind' hnode hbefore hbehind hheight =>
    exact .operator (List.mem_append_right _ (List.mem_cons_of_mem _ hmem)) hkind'
      (Expr.binary_mem_nodes.mpr (Or.inr (Or.inl hnode))) hbefore hbehind hheight

theorem Oversteps.join_root (left : Derives chain ls l) (hkind : token.kind = .operator operator)
    (right : Derives operand rs r) (horder : Token.InOrder (ls ++ token :: rs))
    (hheight : max l.height r.height = depthLimit) :
    Oversteps depth (ls ++ token :: rs) (.join l operator r) token r.span.stop := by
  obtain ⟨hbefore, hbehind⟩ := left.join_places right horder
  exact .operator (by simp) hkind (Expr.self_mem_nodes _) hbefore hbehind
    (congrArg Nat.succ hheight)

/-- What comes first in the left operand comes first. -/
theorem OverstepsFirst.join_left (left : Derives chain ls l)
    (hkind : token.kind = .operator operator) (right : Derives operand rs r)
    (hapart : Token.Apart (ls ++ token :: rs)) (h : OverstepsFirst depth ls l other place) :
    OverstepsFirst depth (ls ++ token :: rs) (.join l operator r) other place := by
  obtain ⟨hover, hfirst⟩ := h
  obtain ⟨hls, hrs⟩ := hapart.of_append
  have hplaces := left.join_places right hapart.inOrder
  have hplace := hover.place_within left hls
  refine ⟨hover.join_left, fun other' place' h' => ?_⟩
  rcases h'.of_join left hkind right hapart with h' | h' | ⟨-, -, rfl⟩
  · exact hfirst other' place' h'
  · have hplace' := h'.place_within right hrs.tail
    have htoken : token.span.start < token.span.stop := hapart.nonempty token (by simp)
    exact Or.inr (by omega)
  · have hwithin := right.node_within hrs.tail r.self_mem_nodes
    have htoken : token.span.start < token.span.stop := hapart.nonempty token (by simp)
    exact Or.inr (by omega)

/-- An overstep that leaves the height within the limit is that of a group, and shows before the end. -/
theorem Oversteps.lt_stop {nonterminal : Nonterminal} (h : Oversteps depth tokens e token place)
    (he : Derives nonterminal tokens e) (hapart : Token.Apart tokens) (hheight : e.height ≤ depthLimit) :
    place < e.span.stop := by
  cases h with
  | @group before after _ htokens hopening hdepth =>
    obtain ⟨_, last, _, hlast, hspan⟩ := he.span_eq hapart.inOrder
    obtain ⟨last', hlast', hends, -⟩ := he.run Standing.expectsOperand_start
    obtain rfl := Option.some.inj (hlast.symm.trans hlast')
    subst htokens
    -- an expression does not end with an opening parenthesis
    have hbehind : last ∈ after := by
      cases after with
      | nil =>
        rw [List.getLast?_concat] at hlast
        obtain rfl := Option.some.inj hlast
        simp [hopening, endsOperand] at hends
      | cons next after =>
        rw [List.getLast?_append, List.getLast?_cons_cons] at hlast
        exact List.mem_of_getLast? (by simpa using hlast)
    have hstop : token.span.stop ≤ last.span.start :=
      hapart.inOrder.of_append.2.1.tail.2 last hbehind
    have hpos := hapart.nonempty last (List.mem_of_getLast? hlast)
    rw [hspan]
    exact Nat.lt_of_le_of_lt hstop hpos
  | operator _ _ hnode _ _ hheight' =>
    have hle := Expr.height_le_of_mem_nodes hnode
    omega

/-- With nothing in the left operand, what comes first in the right one comes first. -/
theorem OverstepsFirst.join_right (left : Derives chain ls l)
    (hkind : token.kind = .operator operator) (right : Derives operand rs r)
    (hapart : Token.Apart (ls ++ token :: rs)) (hwithin : WithinLimits depth ls l)
    (h : OverstepsFirst depth rs r other place) :
    OverstepsFirst depth (ls ++ token :: rs) (.join l operator r) other place := by
  obtain ⟨hover, hfirst⟩ := h
  refine ⟨hover.join_right left hkind, fun other' place' h' => ?_⟩
  rcases h'.of_join left hkind right hapart with h' | h' | ⟨-, hmax, rfl⟩
  · exact absurd h' hwithin.not_oversteps
  · exact hfirst other' place' h'
  · exact Or.inr (hover.lt_stop right hapart.of_append.2.tail (by omega))

/-- With nothing in the operands, the operator comes first. -/
theorem OverstepsFirst.join_root (left : Derives chain ls l)
    (hkind : token.kind = .operator operator) (right : Derives operand rs r)
    (hapart : Token.Apart (ls ++ token :: rs)) (hl : WithinLimits depth ls l)
    (hr : WithinLimits depth rs r) (hheight : max l.height r.height = depthLimit) :
    OverstepsFirst depth (ls ++ token :: rs) (.join l operator r) token r.span.stop := by
  refine ⟨.join_root left hkind right hapart.inOrder hheight, fun other' place' h' => ?_⟩
  rcases h'.of_join left hkind right hapart with h' | h' | ⟨rfl, -, rfl⟩
  · exact absurd h' hl.not_oversteps
  · exact absurd h' hr.not_oversteps
  · exact Or.inl ⟨rfl, rfl⟩

end

/-! ## Groups -/

section

variable {opening closing other : Token} {span : Span}

/-- What oversteps a limit in a group is the opening parenthesis, or oversteps it inside. -/
theorem Oversteps.of_group (hopening : opening.kind = .leftParen) (hclosing : closing.kind = .rightParen)
    (h : Oversteps depth (opening :: (tokens ++ [closing])) (e.withSpan span) other place) :
    (other = opening ∧ depth = depthLimit ∧ place = opening.span.stop) ∨
      Oversteps (depth + 1) tokens e other place := by
  cases h with
  | @group before after _ htokens hkind hdepth =>
    cases before with
    | nil =>
      obtain ⟨rfl, -⟩ := List.cons.inj htokens
      exact Or.inl ⟨rfl, hdepth, rfl⟩
    | cons first before =>
      obtain ⟨rfl, hrest⟩ := List.cons.inj htokens
      rw [unclosed_cons, nest_leftParen hopening] at hdepth
      rcases append_cons_cases hrest with ⟨-, rfl, -⟩ | ⟨ms, -, hms⟩ | ⟨ms, hms, -⟩
      · simp [hclosing] at hkind
      · simp at hms
      · exact Or.inr (.group hms hkind hdepth)
  | operator hmem hkind hnode hbefore hbehind hheight =>
    obtain ⟨own, hnode'⟩ := Expr.exists_mem_nodes_withSpan.mp ⟨_, hnode⟩
    have hmem' : other ∈ tokens := by
      rcases List.mem_cons.mp hmem with rfl | hrest
      · simp [hopening] at hkind
      · rcases List.mem_append.mp hrest with hmem' | hlast
        · exact hmem'
        · obtain rfl := List.mem_singleton.mp hlast
          simp [hclosing] at hkind
    exact Or.inr (.operator hmem' hkind hnode' hbefore hbehind hheight)

theorem Oversteps.group_inside (hopening : opening.kind = .leftParen)
    (h : Oversteps (depth + 1) tokens e other place) :
    Oversteps depth (opening :: (tokens ++ [closing])) (e.withSpan span) other place := by
  cases h with
  | @group before after _ htokens hkind hdepth =>
    have htokens' : opening :: (tokens ++ [closing]) =
        (opening :: before) ++ other :: (after ++ [closing]) := by
      simp [htokens]
    refine .group htokens' hkind ?_
    rw [unclosed_cons, nest_leftParen hopening]
    exact hdepth
  | operator hmem hkind hnode hbefore hbehind hheight =>
    obtain ⟨own, hnode'⟩ := Expr.exists_mem_nodes_withSpan.mpr ⟨_, hnode⟩
    exact .operator (by simp [hmem]) hkind hnode' hbefore hbehind hheight

/-- If there may be one group more, what comes first inside comes first. -/
theorem OverstepsFirst.group_inside (hopening : opening.kind = .leftParen)
    (hclosing : closing.kind = .rightParen) (hdepth : depth ≠ depthLimit)
    (h : OverstepsFirst (depth + 1) tokens e other place) :
    OverstepsFirst depth (opening :: (tokens ++ [closing])) (e.withSpan span) other place := by
  obtain ⟨hover, hfirst⟩ := h
  refine ⟨hover.group_inside hopening, fun other' place' h' => ?_⟩
  rcases h'.of_group hopening hclosing with ⟨-, hlimit, -⟩ | h'
  · exact absurd hlimit hdepth
  · exact hfirst other' place' h'

/-- If there may be no group more, the opening parenthesis comes first. -/
theorem OverstepsFirst.group_opening {nonterminal : Nonterminal}
    (hopening : opening.kind = .leftParen) (inner : Derives nonterminal tokens e)
    (hclosing : closing.kind = .rightParen) (hapart : Token.Apart (opening :: (tokens ++ [closing])))
    (hdepth : depth = depthLimit) :
    OverstepsFirst depth (opening :: (tokens ++ [closing])) (e.withSpan span) opening
      opening.span.stop := by
  refine ⟨.group (List.nil_append _).symm hopening hdepth, fun other' place' h' => ?_⟩
  rcases h'.of_group hopening hclosing with ⟨rfl, -, rfl⟩ | h'
  · exact Or.inl ⟨rfl, rfl⟩
  · have hplace := h'.place_within inner hapart.tail.of_append.1
    obtain ⟨first, _, hfirst, _, hspan⟩ := inner.span_eq hapart.tail.of_append.1.inOrder
    have hbehind : opening.span.stop ≤ first.span.start :=
      hapart.inOrder.tail.2 first (List.mem_append_left _ (List.mem_of_head? hfirst))
    rw [hspan] at hplace
    exact Or.inr (Nat.lt_of_le_of_lt hbehind hplace.1)

/-- A group is within the limits if there may be one group more and its inside is within them. -/
theorem WithinLimits.group (hopening : opening.kind = .leftParen) (hclosing : closing.kind = .rightParen)
    (hdepth : depth < depthLimit) (h : WithinLimits (depth + 1) tokens e) :
    WithinLimits depth (opening :: (tokens ++ [closing])) (e.withSpan span) := by
  refine ⟨nestsWithin_cons.mpr ⟨fun _ => hdepth, ?_⟩, by rw [Expr.height_withSpan]; exact h.2⟩
  rw [nest_leftParen hopening]
  refine nestsWithin_append.mpr ⟨h.1, nestsWithin_cons.mpr ⟨?_, nestsWithin_nil _ _⟩⟩
  simp [hclosing]

end

end Grammar

end Calculator
