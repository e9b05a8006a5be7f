import Calculator.Proofs.Grammar.Operands
import Calculator.Proofs.Parse.Exactness
import Calculator.Proofs.Text.Slice

/-!
# Replacing a node in a text

The span of a node cuts a parsed text in three. Between the outer two, any other text that is parsed
can stand in parentheses, and the whole then reads as the tree with that node replaced. The
parentheses do two things: no token reaches across them (`Scanner.Lexes.exists_mark`), and what they
enclose is a factor, which can stand wherever the node has stood (`Grammar.Surrounds`).
-/

namespace Calculator

open Grammar

/-- A text in parentheses. -/
def parenthesize (text : List Char) : List Char := '(' :: (text ++ [')'])

/-- Between two texts, a text in parentheses has the tokens of a group. -/
theorem Scanner.Lexes.exists_group {left text right : List Char} {before tokens after : List Token}
    (hleft : Lexes left before) (h : Lexes text tokens) (hright : Lexes right after) :
    ∃ opening tokens' closing after',
      Lexes (left ++ parenthesize text ++ right)
        (before ++ opening :: (tokens' ++ [closing]) ++ after') ∧
      opening.kind = .leftParen ∧ closing.kind = .rightParen ∧
      tokens'.map symbol = tokens.map symbol ∧ after'.map symbol = after.map symbol := by
  have hopening : markKind? '(' = some .leftParen := rfl
  have hclosing : markKind? ')' = some .rightParen := rfl
  obtain ⟨closing, behind, hlexes, hckind, hbehind⟩ := h.exists_mark hclosing hright
  obtain ⟨opening, rest, hwhole, hokind, hrest⟩ := hleft.exists_mark hopening hlexes
  obtain ⟨tokens', closing', after', rfl, htokens, hcsame, hafter⟩ :=
    exists_join_of_map_symbol hrest
  refine ⟨opening, tokens', closing', after', by simpa [parenthesize] using hwhole, hokind,
    (kind_eq_of_symbol hcsame).trans hckind, htokens, hafter.trans hbehind⟩

/-- The slice of a node has the tokens of the node, moved, and they derive the node, moved. -/
theorem Grammar.Derives.exists_cut {source : List Char} {before inner after : List Token}
    {nonterminal : Nonterminal} {node : Expr} (h : Derives nonterminal inner node)
    (hlexes : Scanner.Lexes source (before ++ inner ++ after)) :
    ∃ left text right own ownTokens after', CutAt source node.span left text right ∧
      Scanner.Lexes left before ∧ Scanner.Lexes text ownTokens ∧ Scanner.Lexes right after' ∧
      inner = ownTokens.map (Token.shift node.span.start) ∧
      after = after'.map (Token.shift node.span.stop) ∧
      Derives nonterminal ownTokens own ∧ own.shift node.span.start = node := by
  have horder : Token.InOrder inner := hlexes.inOrder.middle
  obtain ⟨first, last, hfirst, hlast, hspan⟩ := h.span_eq horder
  obtain ⟨left, text, right, ownTokens, after', hsource, hstart, hstop, hleft, htext, hright, hinner,
    hafter⟩ := hlexes.exists_middle hfirst hlast
  have hfrom : node.span.start = Text.byteLength left := by rw [hspan, hstart]
  have hto : node.span.stop = Text.byteLength (left ++ text) := by rw [hspan, hstop]
  rw [← hfrom] at hinner
  rw [← hto] at hafter
  have hsame : ownTokens.map symbol = inner.map symbol := by
    rw [hinner, Scanner.map_symbol_shift]
  obtain ⟨own, hown, -⟩ := h.respan hsame
  have hback := hown.shift node.span.start
  rw [← hinner] at hback
  exact ⟨left, text, right, own, ownTokens, after', ⟨hsource, hfrom.symm, hto.symm⟩, hleft, htext,
    hright, hinner, hafter, hown, hback.unique h⟩

/-- A node that stands among the tokens of a text has a text of its own there, and any other text of
a sentence can take its place in parentheses. -/
theorem Grammar.Surrounds.exists_cut {source : List Char} {tokens : List Token} {shape : Shape}
    {path : List Side} {node : Expr} (h : Surrounds .expression tokens shape path node)
    (hlexes : Scanner.Lexes source tokens) :
    ∃ left middle right, CutAt source node.span left middle right ∧
      (∀ text others new, Scanner.Lexes text others → Derives .expression others new →
        ∃ tokens', Scanner.Lexes (left ++ parenthesize text ++ right) tokens' ∧
          Sentence tokens' (Shape.replace new.shape shape path)) ∧
      ∃ inner, Scanner.Lexes middle inner ∧ Sentence inner node.shape ∧
        ∀ limit, NestsWithin limit 0 tokens → NestsWithin limit 0 inner := by
  obtain ⟨before, inner, after, own, rfl, hinner, hreplace⟩ := h
  obtain ⟨left, middle, right, -, inner', after', hcut, hleft, hmiddle, hright, hinnermoved,
    haftermoved, -⟩ := hinner.exists_cut hlexes
  have hinner' : inner'.map symbol = inner.map symbol := by
    rw [hinnermoved, Scanner.map_symbol_shift]
  have hafter' : after'.map symbol = after.map symbol := by
    rw [haftermoved, Scanner.map_symbol_shift]
  refine ⟨left, middle, right, hcut, ?_, inner', hmiddle, hinner.toExpression.respan hinner', ?_⟩
  · intro text others new hothers hnew
    obtain ⟨opening, others', closing, after'', hwhole, hopening, hclosing, hsame, hafter''⟩ :=
      hleft.exists_group hothers hright
    obtain ⟨new', hnew', hshape⟩ := hnew.respan hsame
    obtain ⟨e, he, heshape⟩ := hreplace _ _ (.group hopening hnew' hclosing)
    rw [Expr.shape_withSpan, hshape] at heshape
    -- the tokens behind the group are those behind the node, but elsewhere
    have hmoved : (before ++ opening :: (others' ++ [closing]) ++ after'').map symbol =
        (before ++ opening :: (others' ++ [closing]) ++ after).map symbol := by
      simp [hafter'', hafter']
    obtain ⟨e', he', heshape'⟩ := he.respan hmoved
    exact ⟨_, hwhole, e', he', heshape'.trans heshape⟩
  · intro limit hnests
    exact nestsWithin_of_symbol hinner' hnests.middle

/-- Any text that is parsed can take the place of a node in parentheses: the tree changes at the node
only, unless it gets too deep. So parentheses around the text of a node change nothing. -/
theorem parse_substitute {source : List Char} {e node : Expr} {path : List Side}
    (h : Expr.parse source = .ok e) (hat : e.at? path = some node) :
    ∃ left middle right, CutAt source node.span left middle right ∧
      (∀ text new, Expr.parse text = .ok new →
        ReadsUnlessTooDeep (left ++ parenthesize text ++ right)
          (Shape.replace new.shape e.shape path)) ∧
      (∃ own, Expr.parse middle = .ok own ∧ own.shape = node.shape) ∧
      ReadsUnlessTooDeep (left ++ parenthesize middle ++ right) e.shape := by
  obtain ⟨tokens, last, hstreams, he, hnests, hheight⟩ := Expr.parse_eq_ok_iff.mp h
  have hlexes : Scanner.Lexes source tokens := Scanner.lexes_iff.mpr ⟨last, hstreams⟩
  obtain ⟨left, middle, right, hcut, hreplace, inner, hinner, ⟨own, hown, hshape⟩, hwithin⟩ :=
    (he.surrounds hat).exists_cut hlexes
  have hreads : ∀ text new, Expr.parse text = .ok new →
      ReadsUnlessTooDeep (left ++ parenthesize text ++ right)
        (Shape.replace new.shape e.shape path) := by
    intro text new hnew
    obtain ⟨others, last', hstreams', hothers, -, -⟩ := Expr.parse_eq_ok_iff.mp hnew
    obtain ⟨tokens', htokens', hsentence⟩ :=
      hreplace text others new (Scanner.lexes_iff.mpr ⟨last', hstreams'⟩) hothers
    obtain ⟨last'', hstreams''⟩ := Scanner.lexes_iff.mp htokens'
    exact readsUnlessTooDeep_of_sentence hstreams'' hsentence
  have hmiddle : Expr.parse middle = .ok own := by
    obtain ⟨last', hstreams'⟩ := Scanner.lexes_iff.mp hinner
    have hown_height : own.height ≤ depthLimit := by
      calc own.height = own.shape.height := (Expr.height_shape own).symm
        _ = node.shape.height := by rw [hshape]
        _ = node.height := Expr.height_shape node
        _ ≤ e.height := Expr.height_le_of_at? hat
        _ ≤ depthLimit := hheight
    exact Expr.parse_eq_ok_iff.mpr ⟨inner, last', hstreams', hown, hwithin _ hnests, hown_height⟩
  have hback : ReadsUnlessTooDeep (left ++ parenthesize middle ++ right) e.shape := by
    have hsame := hreads middle own hmiddle
    rwa [hshape, Expr.replace_of_at? hat] at hsame
  exact ⟨left, middle, right, hcut, hreads, ⟨own, hmiddle, hshape⟩, hback⟩

/-- The group in the middle of a chain: its parentheses belong to the node, and are replaced too. -/
theorem parse_substitute_inner_product :
    ∃ e node, Expr.parse "8-(2 * 3)-1".toList = .ok e ∧ e.at? [.left, .right] = some node ∧
      node.span = ⟨2, 9⟩ ∧
      ∃ left middle right, CutAt "8-(2 * 3)-1".toList node.span left middle right ∧
        (∀ text new, Expr.parse text = .ok new →
          ReadsUnlessTooDeep (left ++ parenthesize text ++ right)
            (Shape.replace new.shape e.shape [.left, .right])) ∧
        (∃ own, Expr.parse middle = .ok own ∧ own.shape = node.shape) ∧
        ReadsUnlessTooDeep (left ++ parenthesize middle ++ right) e.shape := by
  let one : Expr := .number ⟨1, by decide, by decide⟩ ⟨10, 11⟩
  let two : Expr := .number ⟨2, by decide, by decide⟩ ⟨3, 4⟩
  let three : Expr := .number ⟨3, by decide, by decide⟩ ⟨7, 8⟩
  let eight : Expr := .number ⟨8, by decide, by decide⟩ ⟨0, 1⟩
  let node : Expr := .binary two .multiply three ⟨2, 9⟩
  let e : Expr := .binary (.binary eight .subtract node ⟨0, 9⟩) .subtract one ⟨0, 11⟩
  have hparse : Expr.parse "8-(2 * 3)-1".toList = .ok e := by decide +kernel
  exact ⟨e, node, hparse, rfl, rfl, parse_substitute hparse rfl⟩

end Calculator
