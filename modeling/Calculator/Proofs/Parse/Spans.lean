import Calculator.Proofs.Parse.Substitution
import Calculator.Proofs.Token.Tiling

/-!
# Spans are faithful

The span of a node of a parsed text is the place of its own text: that slice is parsed as the node
itself, only at another offset (`Expr.exists_slice`). Around the operands of a binary node stand its
operator and parentheses that match, and nothing else but blanks (`Grammar.Derives.framed`).

Both follow from where the tokens of the node lie among those of the text. The texts in between are
known by their characters that are no blanks, which are the lexemes of the tokens there.
-/

namespace Calculator

open Grammar

/-- What stands around the operands of a binary node: between them the operator, and outside equally
many opening and closing parentheses. -/
structure Framed (source : List Char) (l : Expr) (operator : Operator) (r : Expr) (span : Span) :
    Prop where
  between : ∃ before behind,
    SliceAt source ⟨l.span.stop, r.span.start⟩ (before ++ operator.symbol :: behind) ∧
      (∀ c ∈ before, Text.isBlank c = true) ∧ ∀ c ∈ behind, Text.isBlank c = true
  around : ∃ opening closing,
    SliceAt source ⟨span.start, l.span.start⟩ opening ∧
      SliceAt source ⟨r.span.stop, span.stop⟩ closing ∧
      (∀ c ∈ opening, c = '(' ∨ Text.isBlank c = true) ∧
      (∀ c ∈ closing, c = ')' ∨ Text.isBlank c = true) ∧
      opening.count '(' = closing.count ')'

/-! ## The text of a node -/

theorem flatMap_lexeme_shift (offset : Nat) (tokens : List Token) :
    (tokens.map (Token.shift offset)).flatMap Token.lexeme = tokens.flatMap Token.lexeme := by
  rw [List.flatMap_map]
  rfl

/-- A derived expression takes up at least one character. -/
theorem Grammar.Derives.start_lt_stop {source : List Char} {before inner after : List Token}
    {nonterminal : Nonterminal} {node : Expr} (h : Derives nonterminal inner node)
    (hlexes : Scanner.Lexes source (before ++ inner ++ after)) : node.span.start < node.span.stop := by
  have horder : Token.InOrder inner := hlexes.inOrder.middle
  obtain ⟨first, last, hfirst, hlast, hspan⟩ := h.span_eq horder
  have hmem : first ∈ before ++ inner ++ after := by simp [List.mem_of_head? hfirst]
  have hfirst_lt := hlexes.tiles.nonempty first hmem
  have hle := horder.stop_le hlast (List.mem_of_head? hfirst)
  rw [hspan]
  exact Nat.lt_of_lt_of_le hfirst_lt hle

/-- The slice of a node is parsed as the node, at another offset. -/
theorem Expr.exists_slice {source : List Char} {tokens : List Token} {e node : Expr}
    (hlexes : Scanner.Lexes source tokens) (he : Derives .expression tokens e)
    (hnests : NestsWithin depthLimit 0 tokens) (hheight : e.height ≤ depthLimit)
    (hnode : node ∈ e.nodes) :
    ∃ text own, SliceAt source node.span text ∧ Expr.parse text = .ok own ∧
      own.shift node.span.start = node := by
  obtain ⟨before, inner, after, rfl, hinner⟩ := he.exists_inner hnode
  obtain ⟨left, text, right, own, ownTokens, -, hcut, -, htext, -, hmoved, -, hown, hshift⟩ :=
    hinner.exists_cut hlexes
  have hwithin : NestsWithin depthLimit 0 ownTokens := by
    refine nestsWithin_of_symbol ?_ hnests.middle
    rw [hmoved, Scanner.map_symbol_shift]
  have hown_height : own.height ≤ depthLimit := by
    obtain ⟨path, hat⟩ := Expr.mem_nodes_iff.mp hnode
    calc own.height = (own.shift node.span.start).height := (Expr.height_shift _ _).symm
      _ = node.height := by rw [hshift]
      _ ≤ e.height := Expr.height_le_of_at? hat
      _ ≤ depthLimit := hheight
  exact ⟨text, own, hcut.sliceAt,
    Expr.parse_eq_ok_iff_lexes.mpr ⟨ownTokens, htext, hown, hwithin, hown_height⟩, hshift⟩

/-- The slice of a whole expression is its text without the blanks around it. -/
theorem Grammar.Derives.sliceAt_trim {source : List Char} {tokens : List Token}
    {nonterminal : Nonterminal} {e : Expr} (h : Derives nonterminal tokens e)
    (hlexes : Scanner.Lexes source tokens) : SliceAt source e.span (Text.trim source) := by
  have hall : Scanner.Lexes source ([] ++ tokens ++ []) := by simpa using hlexes
  obtain ⟨left, text, right, own, ownTokens, after, hcut, hleft, htext, hright, -, hafter, hown,
    hshift⟩ := h.exists_cut hall
  obtain rfl : after = [] := List.map_eq_nil_iff.mp hafter.symm
  obtain ⟨hsource, hstart, hstop⟩ := hcut
  obtain ⟨first, last, hfirst, hlast, hspan⟩ := hown.span_eq htext.inOrder
  have hmoved : e.span = own.span.shift e.span.start := by rw [← Expr.span_shift, hshift]
  have hfrom := congrArg Span.start hmoved
  have hto := congrArg Span.stop hmoved
  simp only [hspan, Span.shift] at hfrom hto
  rw [Text.byteLength_append, hstart] at hstop
  obtain ⟨hne, hhead, hend⟩ := htext.not_blank_at_ends hfirst hlast (by omega) (by omega)
  have htrim : Text.trim source = text := by
    rw [hsource]
    exact Text.trim_eq (Text.withoutBlanks_eq_nil_iff.mp hleft.withoutBlanks_eq)
      (Text.withoutBlanks_eq_nil_iff.mp hright.withoutBlanks_eq) hhead hend hne
  rw [htrim]
  exact ⟨left, right, hsource, hstart, by rw [Text.byteLength_append, hstart, hstop]⟩

/-! ## The text around operands -/

/-- Tokens of one kind that are each read from one character. -/
theorem Scanner.Lexes.flatMap_lexeme_eq {source : List Char} {tokens same : List Token} {c : Char}
    {kind : Token.Kind} (h : Lexes source tokens) (hsub : same ⊆ tokens)
    (hsame : ∀ token ∈ same, token.kind = kind) (hmark : (c, kind) ∈ marks) :
    same.flatMap Token.lexeme = List.replicate same.length c := by
  induction same with
  | nil => rfl
  | cons token same ih =>
    obtain ⟨htoken, hothers⟩ := List.cons_subset.mp hsub
    obtain ⟨hkind, hkinds⟩ := List.forall_mem_cons.mp hsame
    obtain ⟨left, right, -, hfills⟩ := h.tiles.fills token htoken
    have hlexeme : token.lexeme = [c] := hfills.lexeme_eq_of_kind (hkind ▸ hmark)
    rw [List.flatMap_cons, hlexeme, ih hothers hkinds, List.length_cons, List.replicate_succ]
    rfl

/-- An offset in a text behind some of its tokens: up to there the text has their lexemes, in order,
and otherwise blanks. -/
def OffsetBehind (source : List Char) (tokens : List Token) (offset : Nat) : Prop :=
  ∃ left right, source = left ++ right ∧ Text.byteLength left = offset ∧
    Text.withoutBlanks left = tokens.flatMap Token.lexeme

/-- The text between two offsets is known, up to blanks, by the tokens between them. -/
theorem OffsetBehind.exists_between {source : List Char} {before between : List Token}
    {start stop : Nat} (hstart : OffsetBehind source before start)
    (hstop : OffsetBehind source (before ++ between) stop) (hle : start ≤ stop) :
    ∃ text, SliceAt source ⟨start, stop⟩ text ∧
      Text.withoutBlanks text = between.flatMap Token.lexeme := by
  obtain ⟨left, right, hsource, rfl, hleft⟩ := hstart
  obtain ⟨left', right', hsource', rfl, hleft'⟩ := hstop
  obtain ⟨text, rfl, hslice⟩ := exists_sliceAt hsource hsource' hle
  rw [Text.withoutBlanks_append, hleft, List.flatMap_append] at hleft'
  exact ⟨text, hslice, List.append_cancel_left hleft'⟩

/-- A node starts behind the tokens in front of it, and stops behind its own. -/
theorem Grammar.Derives.offsetBehind {source : List Char} {before inner after : List Token}
    {nonterminal : Nonterminal} {node : Expr} (h : Derives nonterminal inner node)
    (hlexes : Scanner.Lexes source (before ++ inner ++ after)) :
    OffsetBehind source before node.span.start ∧
      OffsetBehind source (before ++ inner) node.span.stop := by
  obtain ⟨left, text, right, -, ownTokens, -, ⟨hsource, hstart, hstop⟩, hleft, htext, -, hmoved, -⟩ :=
    h.exists_cut hlexes
  refine ⟨⟨left, text ++ right, by rw [hsource, List.append_assoc], hstart, hleft.withoutBlanks_eq⟩,
    left ++ text, right, hsource, hstop, ?_⟩
  rw [Text.withoutBlanks_append, hleft.withoutBlanks_eq, htext.withoutBlanks_eq,
    List.flatMap_append, hmoved, flatMap_lexeme_shift]

/-- A binary node stands in the text as its tokens do. -/
theorem Grammar.Derives.framed {source : List Char} {before inner after : List Token}
    {nonterminal : Nonterminal} {l r : Expr} {operator : Operator} {span : Span}
    (h : Derives nonterminal inner (.binary l operator r span))
    (hlexes : Scanner.Lexes source (before ++ inner ++ after)) : Framed source l operator r span := by
  obtain ⟨opening, ls, token, rs, closing, rfl, hopening, hclosing, hlength, hoperator, hl, hr⟩ :=
    h.exists_operands
  have horder := hlexes.inOrder.middle
  have hleft : opening ++ ls ++ token :: rs ++ closing =
      opening ++ ls ++ ([token] ++ rs ++ closing) := by simp
  have hright : opening ++ ls ++ token :: rs ++ closing =
      (opening ++ ls ++ [token]) ++ rs ++ closing := by simp
  have hfrom := (h.span_within horder hl hleft).1
  have hapart := hl.span_apart hr horder hleft
  have hto := (h.span_within horder hr hright).2
  have hllexes : Scanner.Lexes source
      ((before ++ opening) ++ ls ++ ([token] ++ rs ++ closing ++ after)) := by simpa using hlexes
  have hrlexes : Scanner.Lexes source
      ((before ++ opening ++ ls ++ [token]) ++ rs ++ (closing ++ after)) := by simpa using hlexes
  obtain ⟨hstart, hstop⟩ := h.offsetBehind hlexes
  obtain ⟨hlstart, hlstop⟩ := hl.offsetBehind hllexes
  obtain ⟨hrstart, hrstop⟩ := hr.offsetBehind hrlexes
  simp only [hright, ← List.append_assoc] at hstop
  -- the three stretches outside the operands, each with the lexemes of its tokens
  obtain ⟨first, hfirst, hfirst_eq⟩ := hstart.exists_between hlstart hfrom
  obtain ⟨middle, hmiddle, hmiddle_eq⟩ := hlstop.exists_between hrstart hapart
  obtain ⟨last, hlast, hlast_eq⟩ := hrstop.exists_between hstop hto
  rw [hlexes.flatMap_lexeme_eq (by intro; simp +contextual) hopening
    (show ('(', Token.Kind.leftParen) ∈ marks by decide)] at hfirst_eq
  rw [hlexes.flatMap_lexeme_eq (by intro; simp +contextual) hclosing
    (show (')', Token.Kind.rightParen) ∈ marks by decide)] at hlast_eq
  rw [hlexes.flatMap_lexeme_eq (by simp) (List.forall_mem_singleton.mpr hoperator)
    (show (operator.symbol, Token.Kind.operator operator) ∈ marks by cases operator <;> decide)]
    at hmiddle_eq
  obtain ⟨blanks, blanks', rfl, hblanks, hblanks'⟩ :=
    Text.exists_of_withoutBlanks_eq_singleton hmiddle_eq
  refine ⟨⟨blanks, blanks', hmiddle, hblanks, hblanks'⟩, first, last, hfirst, hlast,
    fun c hc => Text.eq_or_isBlank_of_withoutBlanks_eq_replicate hfirst_eq hc,
    fun c hc => Text.eq_or_isBlank_of_withoutBlanks_eq_replicate hlast_eq hc, ?_⟩
  calc first.count '(' = (Text.withoutBlanks first).count '(' :=
        (Text.count_withoutBlanks (by decide)).symm
    _ = opening.length := by rw [hfirst_eq, List.count_replicate_self]
    _ = closing.length := hlength
    _ = (Text.withoutBlanks last).count ')' := by rw [hlast_eq, List.count_replicate_self]
    _ = last.count ')' := Text.count_withoutBlanks (by decide)

/-! ## Whole texts -/

/-- In a parsed text every node is parsed from its own slice, and its operands stand around the
operator, within parentheses that match. The slice of the root is all of the text but the blanks
around it. -/
theorem parse_spans_faithful {source : List Char} {e : Expr} (h : Expr.parse source = .ok e) :
    SliceAt source e.span (Text.trim source) ∧
      ∀ node ∈ e.nodes,
        node.span.start < node.span.stop ∧ node.span.stop ≤ Text.byteLength source ∧
        (∃ text own, SliceAt source node.span text ∧ Expr.parse text = .ok own ∧
          own.shift node.span.start = node) ∧
        ∀ l operator r span, node = .binary l operator r span →
          Framed source l operator r span := by
  obtain ⟨tokens, hlexes, he, hnests, hheight⟩ := Expr.parse_eq_ok_iff_lexes.mp h
  refine ⟨he.sliceAt_trim hlexes, fun node hnode => ?_⟩
  obtain ⟨text, own, hslice, hparse, hshift⟩ := Expr.exists_slice hlexes he hnests hheight hnode
  obtain ⟨before, inner, after, rfl, hinner⟩ := he.exists_inner hnode
  refine ⟨hinner.start_lt_stop hlexes, hslice.stop_le, ⟨text, own, hslice, hparse, hshift⟩, ?_⟩
  rintro l operator r span rfl
  exact hinner.framed hlexes

/-- Two pairs of parentheses in the middle of a chain belong to the node inside them, with blanks of
three bytes on their left and within. -/
theorem parse_spans_faithful_nested_group :
    ∃ e node own, Expr.parse "7-\u3000((2 *\u30003 ))-1".toList = .ok e ∧ node ∈ e.nodes ∧
      node.span = ⟨5, 17⟩ ∧
      SliceAt "7-\u3000((2 *\u30003 ))-1".toList e.span
        (Text.trim "7-\u3000((2 *\u30003 ))-1".toList) ∧
      (∃ text, SliceAt "7-\u3000((2 *\u30003 ))-1".toList node.span text ∧
        Expr.parse text = .ok own ∧ own.shift node.span.start = node) ∧
      ∀ l operator r span, node = .binary l operator r span →
        Framed "7-\u3000((2 *\u30003 ))-1".toList l operator r span := by
  let one : Expr := .number ⟨1, by decide, by decide⟩ ⟨18, 19⟩
  let two : Expr := .number ⟨2, by decide, by decide⟩ ⟨7, 8⟩
  let three : Expr := .number ⟨3, by decide, by decide⟩ ⟨13, 14⟩
  let seven : Expr := .number ⟨7, by decide, by decide⟩ ⟨0, 1⟩
  let node : Expr := .binary two .multiply three ⟨5, 17⟩
  let e : Expr := .binary (.binary seven .subtract node ⟨0, 17⟩) .subtract one ⟨0, 19⟩
  have hparse : Expr.parse "7-\u3000((2 *\u30003 ))-1".toList = .ok e := by decide +kernel
  have hnode : node ∈ e.nodes := by decide +kernel
  obtain ⟨hroot, hnodes⟩ := parse_spans_faithful hparse
  obtain ⟨-, -, ⟨text, own, hslice, hown, hshift⟩, hframed⟩ := hnodes node hnode
  exact ⟨e, node, own, hparse, hnode, rfl, hroot, ⟨text, hslice, hown, hshift⟩, hframed⟩

end Calculator
