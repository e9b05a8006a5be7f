import Calculator.Proofs.Evaluation.Shape
import Calculator.Proofs.Parse.Rendering
import Calculator.Proofs.Parse.Spacing

/-!
# A node folded into its value

In the text of an expression, a node that evaluates to a whole number can be replaced by the digits of
that number, without parentheses. The text is still parsed, and evaluates as before.

No digit of the number runs into its neighbours: what stands in front of a node is no number, and
neither is what follows it (`Grammar.Derives.no_integer_beside`). Texts whose tokens end or start with
something else can be joined to a number as they are (`Scanner.Lexes.exists_number`).
-/

namespace Calculator

open Grammar

/-! ## A number between two texts -/

namespace Scanner

/-- A piece that is no number does not start with a digit. -/
theorem Spells.noDigit_append {start : Nat} {lexeme : List Char} {token : Token}
    (h : Spells start lexeme token) (hkind : token.kind ≠ .integer) (rest : List Char) :
    NoDigit (lexeme ++ rest) := by
  cases h with
  | number => exact absurd rfl hkind
  | @mark c _ hmark =>
    intro d hd
    obtain rfl : c = d := Option.some.inj hd
    exact (mark_of_markKind? hmark).1

theorem noDigit_of_scan {s : Scanner} {token : Token} (hscan : s.scan.1 = .ok token)
    (hkind : token.kind ≠ .integer) : NoDigit s.rest := by
  by_cases hend : token.kind = .endOfInput
  · exact noDigit_of_blank (blank_of_scan_end hscan hend)
  · obtain ⟨gap, lexeme, hrest, hgap, hspells, -⟩ := exists_spells (Prod.ext hscan rfl) hend
    rw [hrest]
    exact noDigit_append_of_blank hgap (hspells.noDigit_append hkind _)

/-- A text whose tokens do not start with a number does not start with a digit. -/
theorem Lexes.noDigit {text : List Char} {tokens : List Token} (h : Lexes text tokens)
    (hfirst : ∀ first, tokens.head? = some first → first.kind ≠ .integer) : NoDigit text := by
  obtain ⟨last, hstreams⟩ := lexes_iff.mp h
  obtain ⟨t, hreads, hlast, hend⟩ := (streams_iff rfl).mp hstreams
  cases tokens with
  | nil =>
    cases hreads with
    | nil =>
    have hkind : last.kind = .endOfInput := by simpa [Item.isLast] using hend
    exact noDigit_of_scan hlast (by simp [hkind])
  | cons first tokens =>
    obtain ⟨behind, hscan⟩ := hreads.scan_eq
    exact noDigit_of_scan (congrArg Prod.fst hscan) (hfirst first rfl)

theorem Reads.eq_of_nil {s t : Scanner} (h : Reads s [] t) : s = t := by
  cases h
  rfl

/-- Tokens that do not end with a number are read whatever follows. -/
theorem Covers.reads {start : Nat} {text : List Char} {tokens : List Token}
    (h : Covers start text tokens)
    (hlast : ∀ last, tokens.getLast? = some last → last.kind ≠ .integer) (rest : List Char)
    (finished : Bool) :
    Reads ⟨start, text ++ rest, finished⟩ tokens ⟨start + Text.byteLength text, rest, finished⟩ := by
  have hall := h [] finished nofun
  rw [List.append_nil] at hall
  rcases List.eq_nil_or_concat tokens with rfl | ⟨before, last, rfl⟩
  · obtain rfl : text = [] := congrArg Scanner.rest hall.eq_of_nil
    exact .nil _
  · rw [List.concat_eq_append] at hall hlast ⊢
    have hkind : last.kind ≠ .integer := hlast last List.getLast?_concat
    obtain ⟨s, hbefore, hmark⟩ := hall.split
    obtain ⟨first, htext, hposition, hcovers⟩ := hbefore.exists_text
    cases hmark with
    | @cons _ behind _ _ _ hscan hmore others =>
    obtain rfl := others.eq_of_nil
    obtain ⟨gap, lexeme, hrest, hgap, hspells, hend, -⟩ := exists_spells hscan hmore
    have htext' : text = first ++ (gap ++ lexeme) := by
      have hbehind : s.rest = gap ++ (lexeme ++ []) := hrest
      rw [hbehind, List.append_nil] at htext
      exact htext
    -- the mark can be read again with anything behind it, and so can the tokens in front of it
    have hno : NoDigit (gap ++ (lexeme ++ rest)) :=
      noDigit_append_of_blank hgap (hspells.noDigit_append hkind rest)
    have hagain : (Scanner.mk s.position (gap ++ (lexeme ++ rest)) finished).scan = (.ok last, _) :=
      scan_of_spells hgap hspells (fun hinteger => absurd hinteger hkind)
    rw [hposition] at hagain
    have hreads := (hcovers (gap ++ (lexeme ++ rest)) finished hno).append
      (.single hagain hmore)
    simpa [htext', Nat.add_assoc] using hreads

/-- Between two texts, a number keeps apart from tokens that are no numbers. -/
theorem Lexes.exists_number {left right : List Char} {before after : List Token} {value : Word}
    (hleft : Lexes left before) (hvalue : 0 ≤ value.toInt) (hright : Lexes right after)
    (hlast : ∀ last, before.getLast? = some last → last.kind ≠ .integer)
    (hfirst : ∀ first, after.head? = some first → first.kind ≠ .integer) :
    ∃ token after', Lexes (left ++ value.text ++ right) (before ++ [token] ++ after') ∧
      token.kind = .integer ∧ token.value = some value ∧ after'.map symbol = after.map symbol := by
  have hno := hright.noDigit hfirst
  obtain ⟨body, gap, rfl, hbefore, hgap⟩ := hleft
  obtain ⟨body', gap', rfl, hafter, hgap'⟩ := hright
  obtain ⟨after', hmoved, hsame⟩ : ∃ after',
      Covers (0 + Text.byteLength body + Text.byteLength gap + Text.byteLength value.text) body'
        after' ∧ after'.map symbol = after.map symbol :=
    ⟨_, hafter.shift (0 + Text.byteLength body + Text.byteLength gap + Text.byteLength value.text),
      map_symbol_shift _ _⟩
  obtain ⟨token, hspells, hkind, htoken⟩ : ∃ token,
      Spells (0 + Text.byteLength body + Text.byteLength gap) value.text token ∧
        token.kind = .integer ∧ token.value = some value := ⟨_, spells_text _ hvalue, rfl, rfl⟩
  have hnumber := Covers.cons hgap hspells (fun _ _ hrest => hno.append hrest) hmoved
  refine ⟨token, after', ⟨body ++ (gap ++ (value.text ++ body')), gap', by simp, ?_, hgap'⟩, hkind,
    htoken, hsame⟩
  intro rest finished hrest
  have hreads := (hbefore.reads hlast (gap ++ (value.text ++ body') ++ rest) finished).append
    (hnumber rest finished hrest)
  simpa [Nat.add_assoc] using hreads

end Scanner

/-! ## The neighbours of a node -/

/-- Behind an operand no other one starts. -/
theorem Grammar.Standing.not_admits_operand {t : Standing} {last token : Token}
    (hlast : t.last = some last) (hends : endsOperand last.kind = true)
    (hstarts : token.kind.startsOperand = true) : ¬ t.Admits token := by
  obtain ⟨last', depth⟩ := t
  obtain rfl : last' = some last := hlast
  refine not_admits_of_endsOperand hends ?_ ?_ ?_
  · intro operator hkind
    simp [hkind, Token.Kind.startsOperand] at hstarts
  · intro hkind
    simp [hkind, Token.Kind.startsOperand] at hstarts
  · intro hkind
    simp [hkind, Token.Kind.startsOperand] at hstarts

/-- No number stands right in front of a node or right behind it. -/
theorem Grammar.Derives.no_integer_beside {nonterminal nonterminal' : Nonterminal}
    {before inner after : List Token} {e node : Expr}
    (h : Derives nonterminal (before ++ inner ++ after) e) (hinner : Derives nonterminal' inner node) :
    (∀ last, before.getLast? = some last → last.kind ≠ .integer) ∧
      ∀ first, after.head? = some first → first.kind ≠ .integer := by
  obtain ⟨final, -, -, hall⟩ := h.run Standing.expectsOperand_start
  obtain ⟨t, hboth, hafter⟩ := hall.split
  obtain ⟨s, hbefore, hmiddle⟩ := hboth.split
  refine ⟨fun last hlast hkind => ?_, fun first hfirst hkind => ?_⟩
  · obtain ⟨opening, others, rfl, hstarts⟩ := Reader.startsOperand_of_derives hinner
    have hs : s.last = some last := by rw [hbefore.last_eq, hlast, Option.some_or]
    cases hmiddle with
    | cons _ hadmits _ =>
    exact Standing.not_admits_operand hs (by simp [hkind, endsOperand]) hstarts hadmits
  · obtain ⟨others, rfl⟩ := List.head?_eq_some_iff.mp hfirst
    obtain ⟨closing, hlast, hends, -⟩ := hinner.run Standing.expectsOperand_start
    have ht : t.last = some closing := by rw [hmiddle.last_eq, hlast, Option.some_or]
    cases hafter with
    | cons _ hadmits _ =>
    exact Standing.not_admits_operand ht hends (by simp [hkind, Token.Kind.startsOperand]) hadmits

/-- A number in the place of a node nests no deeper. -/
theorem Grammar.NestsWithin.fold {limit : Nat} {before inner after after' : List Token} {node : Expr}
    {token : Token} {nonterminal : Nonterminal} (h : NestsWithin limit 0 (before ++ inner ++ after))
    (hinner : Derives nonterminal inner node) (hkind : token.kind = .integer)
    (hsame : after'.map symbol = after.map symbol) :
    NestsWithin limit 0 (before ++ [token] ++ after') := by
  obtain ⟨hboth, hafter⟩ := nestsWithin_append.mp h
  obtain ⟨hbefore, -⟩ := nestsWithin_append.mp hboth
  have hopen : unclosed 0 (before ++ [token]) = unclosed 0 (before ++ inner) := by
    rw [unclosed_append, unclosed_append, hinner.unclosed_eq]
    simp [nest, hkind]
  have hnumber : NestsWithin limit (unclosed 0 before) [token] :=
    nestsWithin_cons.mpr ⟨by simp [hkind], nestsWithin_nil _ _⟩
  refine nestsWithin_append.mpr ⟨nestsWithin_append.mpr ⟨hbefore, hnumber⟩, ?_⟩
  rw [hopen]
  exact nestsWithin_of_symbol hsame hafter

/-! ## Folding -/

/-- In a parsed text, a node that evaluates to a whole number can be replaced by the digits of that
number. The text is parsed as the tree with the node replaced, and evaluates to the same value, or
fails in the same words. -/
theorem parse_fold {source : List Char} {e node : Expr} {path : List Side} {value : Word}
    (h : Expr.parse source = .ok e) (hat : e.at? path = some node)
    (heval : node.eval = .ok (.integer value)) (hvalue : 0 ≤ value.toInt) :
    ∃ left middle right, CutAt source node.span left middle right ∧
      (∃ e', Expr.parse (left ++ value.text ++ right) = .ok e' ∧
        e'.shape = Shape.replace (.number value) e.shape path) ∧
      (evaluate (left ++ value.text ++ right)).mapError Fault.words =
        (evaluate source).mapError Fault.words := by
  obtain ⟨tokens, hlexes, he, hnests, hheight⟩ := Expr.parse_eq_ok_iff_lexes.mp h
  obtain ⟨before, inner, after, own, rfl, hinner, hreplace⟩ := he.surrounds hat
  obtain ⟨left, middle, right, -, inner', after', hcut, hleft, -, hright, -, hmoved, -⟩ :=
    hinner.exists_cut hlexes
  have hsame : after'.map symbol = after.map symbol := by
    rw [hmoved, Scanner.map_symbol_shift]
  obtain ⟨hlast, hfirst⟩ := he.no_integer_beside hinner
  have hfirst' : ∀ first, after'.head? = some first → first.kind ≠ .integer := by
    intro first hhead
    exact hfirst (first.shift node.span.stop) (by rw [hmoved, List.head?_map, hhead]; rfl)
  obtain ⟨token, after'', hwhole, hkind, htoken, hbehind⟩ :=
    hleft.exists_number hvalue hright hlast hfirst'
  have hsame' : after''.map symbol = after.map symbol := hbehind.trans hsame
  -- the tree of the new tokens is the old one with the node replaced, so it evaluates alike
  obtain ⟨e₁, he₁, hshape₁⟩ := hreplace [token] _ (.number hkind htoken)
  have hsymbols :
      (before ++ [token] ++ after'').map symbol = (before ++ [token] ++ after).map symbol := by
    simp [hsame']
  obtain ⟨e', he', hshape'⟩ := he₁.respan hsymbols
  have hshape : e'.shape = Shape.replace (.number value) e.shape path := hshape'.trans hshape₁
  have hlow : e'.height ≤ depthLimit := by
    have hone : (Shape.number value).height ≤ node.height := node.one_le_height
    rw [← Expr.height_shape, hshape]
    exact (Expr.height_replace_le hat hone).trans hheight
  have hparse : Expr.parse (left ++ value.text ++ right) = .ok e' :=
    Expr.parse_eq_ok_iff_lexes.mpr ⟨_, hwhole, he', hnests.fold hinner hkind hsame', hlow⟩
  have hnode : (Shape.number value).eval = node.shape.eval := by
    rw [Expr.eval_shape, heval]
    rfl
  have hvalues : e'.shape.eval = e.shape.eval := by rw [hshape, Expr.eval_replace hat hnode]
  refine ⟨left, middle, right, hcut, ⟨e', hparse, hshape⟩, ?_⟩
  rw [evaluate, evaluate, hparse, h]
  exact Expr.mapError_eval_eq hvalues fun cause => (cause.kind, cause.message, cause.help)

/-- The last factor is folded. The division in front of it fails before and after. -/
theorem parse_fold_behind_division_by_zero :
    ∃ e node, Expr.parse "8/(2-2)*(1 + 2)".toList = .ok e ∧ e.at? [.right] = some node ∧
      node.eval = .ok (.integer ⟨3, by decide, by decide⟩) ∧ node.span = ⟨8, 15⟩ ∧
      ∃ left middle right, CutAt "8/(2-2)*(1 + 2)".toList node.span left middle right ∧
        (∃ e', Expr.parse (left ++ Word.text ⟨3, by decide, by decide⟩ ++ right) = .ok e' ∧
          e'.shape = Shape.replace (.number ⟨3, by decide, by decide⟩) e.shape [.right]) ∧
        (evaluate (left ++ Word.text ⟨3, by decide, by decide⟩ ++ right)).mapError Fault.words =
          (evaluate "8/(2-2)*(1 + 2)".toList).mapError Fault.words := by
  let number (n : Nat) (h : n ≤ 9) (place : Nat) : Expr :=
    .number ⟨n, by omega, by omega⟩ ⟨place, place + 1⟩
  let divisor : Expr := .binary (number 2 (by decide) 3) .subtract (number 2 (by decide) 5) ⟨2, 7⟩
  let node : Expr := .binary (number 1 (by decide) 9) .add (number 2 (by decide) 13) ⟨8, 15⟩
  let e : Expr :=
    .binary (.binary (number 8 (by decide) 0) .divide divisor ⟨0, 7⟩) .multiply node ⟨0, 15⟩
  have hparse : Expr.parse "8/(2-2)*(1 + 2)".toList = .ok e := by decide +kernel
  exact ⟨e, node, hparse, rfl, rfl, rfl, parse_fold hparse rfl rfl (by decide)⟩

end Calculator
