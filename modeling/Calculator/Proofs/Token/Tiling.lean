import Calculator.Proofs.Text.Blank
import Calculator.Proofs.Text.Slice
import Calculator.Proofs.Token.Pieces

/-!
# Tokens tile a text

`Tiles` says how tokens lie in a stretch of a text: one behind the other, each on its own characters,
with nothing but blanks around them. `Token.Fills` says what a single token is read from: a number from
a maximal run of digits, any other token from its one character.

A scanner that stands behind some text (`Scanner.Behind`) reads a token that fills the place in front
of it and then stands behind that token (`Behind.step`). What it has read tiles the text so far
(`Behind.tiles`), by induction on the reading. A number is maximal on its left because no scanner ever
stands between two digits.
-/

namespace Calculator

/-! ## What single tokens are read from -/

/-- A maximal run of digits between two texts. -/
structure Text.DigitRun (left digits right : List Char) : Prop where
  nonempty : digits ≠ []
  digits : ∀ c ∈ digits, c.isDigit = true
  starts : ∀ c, left.getLast? = some c → c.isDigit = false
  stops : ∀ c, right.head? = some c → c.isDigit = false

/-- The tokens of one character. -/
def marks : List (Char × Token.Kind) :=
  [('+', .operator .add), ('-', .operator .subtract), ('*', .operator .multiply),
    ('/', .operator .divide), ('(', .leftParen), (')', .rightParen)]

theorem mem_marks_iff {c : Char} {kind : Token.Kind} :
    (c, kind) ∈ marks ↔ Scanner.markKind? c = some kind := by
  constructor
  · intro h
    simp only [marks, List.mem_cons, List.not_mem_nil, or_false, Prod.mk.injEq] at h
    rcases h with ⟨rfl, rfl⟩ | ⟨rfl, rfl⟩ | ⟨rfl, rfl⟩ | ⟨rfl, rfl⟩ | ⟨rfl, rfl⟩ | ⟨rfl, rfl⟩ <;> rfl
  · intro h
    rcases Scanner.markKind?_eq_some h with ⟨rfl, rfl⟩ | ⟨rfl, rfl⟩ | ⟨operator, rfl, rfl⟩
    · simp [marks]
    · simp [marks]
    · cases operator <;> simp [marks, Operator.symbol]

/-- A token takes up what lies between two texts: a maximal run of digits with its value, or the one
character that stands for it. -/
inductive Token.Fills (left right : List Char) : Token → Prop where
  | number {digits : List Char} {value : Word} (hrun : Text.DigitRun left digits right)
      (hvalue : value.toInt = Text.readNumeral digits) :
      Fills left right
        (.integer value digits ⟨Text.byteLength left, Text.byteLength (left ++ digits)⟩)
  | mark {c : Char} {kind : Token.Kind} (hmark : (c, kind) ∈ marks) :
      Fills left right (.mark kind c (Text.byteLength left))

theorem Token.Fills.places {left right : List Char} {token : Token} (h : token.Fills left right) :
    token.span.start = Text.byteLength left ∧
      token.span.stop = Text.byteLength (left ++ token.lexeme) := by
  cases h with
  | number => exact ⟨rfl, rfl⟩
  | mark => exact ⟨rfl, by simp [Token.mark]⟩

theorem Token.Fills.lexeme_ne_nil {left right : List Char} {token : Token}
    (h : token.Fills left right) : token.lexeme ≠ [] := by
  cases h with
  | number hrun => exact hrun.nonempty
  | mark => exact List.cons_ne_nil _ _

theorem Token.Fills.not_blank {left right : List Char} {token : Token}
    (h : token.Fills left right) : ∀ c ∈ token.lexeme, Text.isBlank c = false := by
  cases h with
  | number hrun => exact fun c hc => Text.isBlank_eq_false_of_isDigit (hrun.digits c hc)
  | mark hmark =>
    have hblank := (Scanner.mark_of_markKind? (mem_marks_iff.mp hmark)).2.1
    simpa [Token.mark] using hblank

/-- A token of one character is read from the character that stands for its kind. -/
theorem Token.Fills.lexeme_eq_of_kind {left right : List Char} {token : Token} {c : Char}
    (h : token.Fills left right) (hmark : (c, token.kind) ∈ marks) : token.lexeme = [c] := by
  have hone : ∀ p ∈ marks, ∀ q ∈ marks, p.2 = q.2 → p.1 = q.1 := by decide
  cases h with
  | number =>
    simp [marks, Token.integer] at hmark
  | @mark d kind hkind =>
    obtain rfl : c = d := hone _ hmark _ hkind rfl
    rfl

theorem Text.byteLength_pos {text : List Char} (h : text ≠ []) : 0 < byteLength text := by
  have hle := length_le_byteLength text
  have hpos := List.length_pos_iff.mpr h
  omega

theorem Token.Fills.start_lt_stop {left right : List Char} {token : Token}
    (h : token.Fills left right) : token.span.start < token.span.stop := by
  obtain ⟨hstart, hstop⟩ := h.places
  have hpos := Text.byteLength_pos h.lexeme_ne_nil
  rw [Text.byteLength_append] at hstop
  omega

/-! ## Tilings -/

/-- Tokens tile the stretch of a text from one offset to another: they lie in it in order, each on its
own characters, and every character outside them is a blank. -/
structure Tiles (source : List Char) (start : Nat) (tokens : List Token) (stop : Nat) : Prop where
  fills : ∀ token ∈ tokens, ∃ left right,
    CutAt source token.span left token.lexeme right ∧ token.Fills left right
  nonempty : ∀ token ∈ tokens, token.span.start < token.span.stop
  inOrder : tokens.Pairwise fun a b => a.span.stop ≤ b.span.start
  within : ∀ token ∈ tokens, start ≤ token.span.start ∧ token.span.stop ≤ stop
  blank : ∀ left c right, source = left ++ c :: right →
    start ≤ Text.byteLength left → Text.byteLength left < stop →
    (∀ token ∈ tokens,
      ¬ (token.span.start ≤ Text.byteLength left ∧ Text.byteLength left < token.span.stop)) →
    Text.isBlank c = true

/-- A stretch of blanks holds no token. -/
theorem Tiles.nil {source left gap right : List Char} (hsource : source = left ++ gap ++ right)
    (hgap : ∀ c ∈ gap, Text.isBlank c = true) :
    Tiles source (Text.byteLength left) [] (Text.byteLength (left ++ gap)) where
  fills := by simp
  nonempty := by simp
  inOrder := .nil
  within := by simp
  blank := by
    intro before c after hbefore hstart hstop _
    obtain ⟨inside, behind, -, rfl, -⟩ :=
      Text.exists_of_byteLength_lt (hsource.symm.trans hbefore) hstart hstop
    exact hgap c (by simp)

/-- Blanks and a token in front of a tiled stretch. -/
theorem Tiles.cons {source left gap right : List Char} {token : Token} {tokens : List Token}
    {stop : Nat} (hsource : source = left ++ gap ++ token.lexeme ++ right)
    (hgap : ∀ c ∈ gap, Text.isBlank c = true) (hfills : token.Fills (left ++ gap) right)
    (rest : Tiles source (Text.byteLength (left ++ gap ++ token.lexeme)) tokens stop)
    (hstop : Text.byteLength (left ++ gap ++ token.lexeme) ≤ stop) :
    Tiles source (Text.byteLength left) (token :: tokens) stop := by
  obtain ⟨hplace, hend⟩ := hfills.places
  have hbehind : ∀ other ∈ tokens, token.span.stop ≤ other.span.start := by
    intro other hother
    rw [hend]
    exact (rest.within other hother).1
  have hstart : Text.byteLength left ≤ token.span.start := by
    rw [hplace, Text.byteLength_append]
    exact Nat.le_add_right _ _
  have hstep := hfills.start_lt_stop
  refine ⟨List.forall_mem_cons.mpr ⟨⟨_, _, ⟨hsource, hplace.symm, hend.symm⟩, hfills⟩, rest.fills⟩,
    List.forall_mem_cons.mpr ⟨hstep, rest.nonempty⟩,
    List.pairwise_cons.mpr ⟨hbehind, rest.inOrder⟩,
    List.forall_mem_cons.mpr ⟨⟨hstart, hend ▸ hstop⟩, fun other hother => ?_⟩, ?_⟩
  · have hother' := hbehind other hother
    exact ⟨by omega, (rest.within other hother).2⟩
  · intro before c after hbefore hfrom hto houtside
    obtain ⟨hnot, hothers⟩ := List.forall_mem_cons.mp houtside
    by_cases hgapped : Text.byteLength before < Text.byteLength (left ++ gap)
    · have hcut : left ++ gap ++ (token.lexeme ++ right) = before ++ c :: after := by
        rw [← hbefore, hsource, List.append_assoc (left ++ gap)]
      obtain ⟨inside, behind, -, rfl, -⟩ := Text.exists_of_byteLength_lt hcut hfrom hgapped
      exact hgap c (by simp)
    · exact rest.blank before c after hbefore (by omega) hto hothers

/-! ## Readings tile -/

namespace Scanner

/-- A scanner stands behind some text, and not in the middle of a number. -/
structure Behind (source left : List Char) (s : Scanner) : Prop where
  source_eq : source = left ++ s.rest
  position_eq : s.position = Text.byteLength left
  apart : ∀ c, left.getLast? = some c → c.isDigit = true → NoDigit s.rest

theorem behind_ofSource (source : List Char) : Behind source [] (ofSource source) :=
  ⟨rfl, rfl, nofun⟩

/-- A run of digits that a scanner comes to, over blanks or at once, is maximal on its left. -/
theorem Behind.starts {source left gap more : List Char} {s : Scanner} {first : Char}
    (h : Behind source left s) (hrest : s.rest = gap ++ first :: more)
    (hgap : ∀ c ∈ gap, Text.isBlank c = true) (hfirst : first.isDigit = true) :
    ∀ c, (left ++ gap).getLast? = some c → c.isDigit = false := by
  intro c hc
  cases hlast : gap.getLast? with
  | some blank =>
    obtain rfl : blank = c := by simpa [List.getLast?_append, hlast] using hc
    exact isDigit_eq_false_of_isBlank (hgap blank (List.mem_of_getLast? hlast))
  | none =>
    obtain rfl : gap = [] := List.getLast?_eq_none_iff.mp hlast
    rw [List.append_nil] at hc
    cases hdigit : c.isDigit with
    | false => rfl
    | true =>
      have hnext := h.apart c hc hdigit first (by rw [hrest]; rfl)
      rw [hfirst] at hnext
      cases hnext

/-- What a scanner reads fills the place in front of it, and it then stands behind that. -/
theorem Behind.step {source left : List Char} {s t : Scanner} {token : Token}
    (h : Behind source left s) (hscan : s.scan = (.ok token, t))
    (hmore : token.kind ≠ .endOfInput) :
    ∃ gap, (∀ c ∈ gap, Text.isBlank c = true) ∧ token.Fills (left ++ gap) t.rest ∧
      Behind source (left ++ gap ++ token.lexeme) t := by
  obtain ⟨gap, lexeme, hrest, hgap, hspells, hposition, hno⟩ := exists_spells hscan hmore
  have hsource : source = left ++ gap ++ lexeme ++ t.rest := by
    rw [h.source_eq, hrest]
    simp
  rw [h.position_eq, ← Text.byteLength_append] at hspells hposition
  rw [← Text.byteLength_append] at hposition
  cases hspells with
  | @number _ value hne hdigits hvalue =>
    have hstarts : ∀ c, (left ++ gap).getLast? = some c → c.isDigit = false := by
      obtain ⟨first, others, rfl⟩ := List.exists_cons_of_ne_nil hne
      exact h.starts hrest hgap (hdigits first List.mem_cons_self)
    have hrun : Text.DigitRun (left ++ gap) lexeme t.rest := ⟨hne, hdigits, hstarts, hno rfl⟩
    refine ⟨gap, hgap, ?_, hsource, hposition, fun _ _ _ => hno rfl⟩
    rw [← Text.byteLength_append]
    exact .number hrun (Word.ofInt?_eq_some_iff.mp hvalue)
  | @mark c kind hkind =>
    refine ⟨gap, hgap, .mark (mem_marks_iff.mpr hkind), hsource, hposition, ?_⟩
    intro last hlast hdigit
    obtain rfl : c = last := by simpa [Token.mark] using hlast
    rw [(mark_of_markKind? hkind).1] at hdigit
    cases hdigit

/-- What a scanner reads tiles the text up to where it then stands, and further over blanks. -/
theorem Behind.tiles {source left : List Char} {s t : Scanner} {tokens : List Token}
    (h : Behind source left s) (hreads : Reads s tokens t) :
    ∃ left', Behind source left' t ∧ Text.byteLength left ≤ Text.byteLength left' ∧
      ∀ gap right, t.rest = gap ++ right → (∀ c ∈ gap, Text.isBlank c = true) →
        Tiles source (Text.byteLength left) tokens (Text.byteLength (left' ++ gap)) := by
  induction hreads generalizing left with
  | nil s =>
    refine ⟨left, h, Nat.le_refl _, fun gap right hrest hgap => ?_⟩
    have hsource : source = left ++ gap ++ right := by rw [h.source_eq, hrest, List.append_assoc]
    exact .nil hsource hgap
  | @cons s behind t token tokens hscan hmore _ ih =>
    obtain ⟨gap, hgap, hfills, hbehind⟩ := h.step hscan hmore
    obtain ⟨left', hend, hle, htiles⟩ := ih hbehind
    refine ⟨left', hend, ?_, fun more right hrest hmore' => ?_⟩
    · simp only [Text.byteLength_append] at hle
      omega
    · refine .cons hbehind.source_eq hgap hfills (htiles more right hrest hmore') ?_
      rw [Text.byteLength_append left' more]
      omega

/-- The tokens of a whole text are read up to the blanks at its end. -/
theorem Lexes.exists_reads_blank {source : List Char} {tokens : List Token}
    (h : Lexes source tokens) :
    ∃ t, Reads (ofSource source) tokens t ∧ ∀ c ∈ t.rest, Text.isBlank c = true := by
  obtain ⟨body, gap, rfl, hbody, hgap⟩ := h
  exact ⟨_, hbody gap false (noDigit_of_blank hgap), hgap⟩

/-- The tokens of a whole text tile it. -/
theorem Lexes.tiles {source : List Char} {tokens : List Token} (h : Lexes source tokens) :
    Tiles source 0 tokens (Text.byteLength source) := by
  obtain ⟨t, hreads, hblank⟩ := h.exists_reads_blank
  obtain ⟨left, hbehind, -, htiles⟩ := (behind_ofSource source).tiles hreads
  have hwhole := htiles t.rest [] (by simp) hblank
  rwa [← hbehind.source_eq] at hwhole

/-- A text that is taken up from its first token to its last one neither starts nor ends with a
blank. -/
theorem Lexes.not_blank_at_ends {source : List Char} {tokens : List Token} {first last : Token}
    (h : Lexes source tokens) (hfirst : tokens.head? = some first)
    (hlast : tokens.getLast? = some last) (hstart : first.span.start = 0)
    (hstop : last.span.stop = Text.byteLength source) :
    source ≠ [] ∧ (∀ c, source.head? = some c → Text.isBlank c = false) ∧
      ∀ c, source.getLast? = some c → Text.isBlank c = false := by
  obtain ⟨left, right, ⟨hsource, hleft, -⟩, hfills⟩ :=
    h.tiles.fills first (List.mem_of_head? hfirst)
  obtain ⟨left', right', ⟨hsource', -, hright⟩, hfills'⟩ :=
    h.tiles.fills last (List.mem_of_getLast? hlast)
  obtain rfl : left = [] := Text.eq_nil_of_byteLength_eq_zero (by rw [hleft, hstart])
  obtain rfl : right' = [] := by
    rw [hstop, hsource', Text.byteLength_append (left' ++ last.lexeme)] at hright
    exact Text.eq_nil_of_byteLength_eq_zero (by omega)
  have hne := hfills.lexeme_ne_nil
  have hne' := hfills'.lexeme_ne_nil
  refine ⟨by simp [hsource, hne], fun c hc => hfills.not_blank c ?_, fun c hc => hfills'.not_blank c ?_⟩
  · rw [hsource, List.nil_append, List.head?_append, List.head?_eq_some_head hne] at hc
    exact Option.some.inj hc ▸ List.head_mem hne
  · rw [hsource', List.append_nil, List.getLast?_append, List.getLast?_eq_some_getLast hne'] at hc
    exact Option.some.inj hc ▸ List.getLast_mem hne'

/-- Without its blanks, what a scanner reads is the lexemes of its tokens. -/
theorem Reads.withoutBlanks_eq {s t : Scanner} {tokens : List Token} (h : Reads s tokens t) :
    Text.withoutBlanks s.rest = tokens.flatMap Token.lexeme ++ Text.withoutBlanks t.rest := by
  induction h with
  | nil => rfl
  | @cons s behind t token tokens hscan hmore _ ih =>
    obtain ⟨gap, lexeme, hrest, hgap, hspells, -, -⟩ := exists_spells hscan hmore
    rw [hrest, Text.withoutBlanks_append, Text.withoutBlanks_append, ih,
      Text.withoutBlanks_eq_nil_iff.mpr hgap, Text.withoutBlanks_eq_self hspells.not_blank]
    simp [hspells.lexeme_eq]

theorem Lexes.withoutBlanks_eq {source : List Char} {tokens : List Token} (h : Lexes source tokens) :
    Text.withoutBlanks source = tokens.flatMap Token.lexeme := by
  obtain ⟨t, hreads, hblank⟩ := h.exists_reads_blank
  have hall := hreads.withoutBlanks_eq
  rw [Text.withoutBlanks_eq_nil_iff.mpr hblank, List.append_nil] at hall
  exact hall

end Scanner

end Calculator
