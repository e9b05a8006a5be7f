import Mathlib.Data.List.TakeWhile
import Calculator.Proofs.Grammar.Derivation
import Calculator.Proofs.Token.Stream

/-!
# The characters of tokens

Tokens are read from pieces of a text: blanks, and behind them the characters of the token
(`Spells`). What a scan finds depends on nothing in front of its piece but the offset, and on nothing
behind it but whether a number goes on there. So a piece of a text can be read elsewhere
(`Covers`, `scan_shift`) with the same tokens, only moved.
-/

namespace Calculator

/-- A token, moved to the right. -/
def Token.shift (offset : Nat) (token : Token) : Token :=
  { token with span := token.span.shift offset }

/-- Every token starts before it stops, and stops before the next one starts. -/
def Token.InOrder (tokens : List Token) : Prop :=
  (∀ token ∈ tokens, token.span.start ≤ token.span.stop) ∧
    tokens.Pairwise fun a b => a.span.stop ≤ b.span.start

/-- A fault, moved to the right. -/
def Fault.shift (offset : Nat) (fault : Fault) : Fault :=
  { fault with span := fault.span.shift offset }

/-- An item, moved to the right. -/
def Item.shift (offset : Nat) : Item → Item
  | .ok token => .ok (token.shift offset)
  | .error fault => .error (fault.shift offset)

namespace Scanner

/-! ## Single pieces -/

/-- The characters of a token, from an offset on. -/
inductive Spells (start : Nat) : List Char → Token → Prop where
  | number {digits : List Char} {value : Word} (hne : digits ≠ [])
      (hdigits : ∀ c ∈ digits, c.isDigit = true)
      (hvalue : Word.ofInt? (Text.readNumeral digits) = some value) :
      Spells start digits (.integer value digits ⟨start, start + Text.byteLength digits⟩)
  | mark {c : Char} {kind : Token.Kind} (hkind : markKind? c = some kind) :
      Spells start [c] (.mark kind c start)

/-- A number does not go on with this text. -/
def NoDigit (text : List Char) : Prop := ∀ c, text.head? = some c → c.isDigit = false

theorem markKind?_eq_some {c : Char} {kind : Token.Kind} (h : markKind? c = some kind) :
    (c = '(' ∧ kind = .leftParen) ∨ (c = ')' ∧ kind = .rightParen) ∨
      ∃ operator : Operator, operator.symbol = c ∧ kind = .operator operator := by
  unfold markKind? at h
  split at h
  · next hc => exact Or.inl ⟨hc, (Option.some.inj h).symm⟩
  · split at h
    · next hc => exact Or.inr (Or.inl ⟨hc, (Option.some.inj h).symm⟩)
    · obtain ⟨operator, hoperator, hkind⟩ := Option.map_eq_some_iff.mp h
      exact Or.inr (Or.inr ⟨operator, Operator.ofSymbol?_eq_some_iff.mp hoperator, hkind.symm⟩)

/-- A token of one character is no digit, no blank and neither a number nor the end. -/
theorem mark_of_markKind? {c : Char} {kind : Token.Kind} (h : markKind? c = some kind) :
    c.isDigit = false ∧ Text.isBlank c = false ∧ kind ≠ .integer ∧ kind ≠ .endOfInput := by
  rcases markKind?_eq_some h with ⟨rfl, rfl⟩ | ⟨rfl, rfl⟩ | ⟨operator, rfl, rfl⟩
  · exact ⟨by decide, by decide, nofun, nofun⟩
  · exact ⟨by decide, by decide, nofun, nofun⟩
  · cases operator <;> exact ⟨by decide, by decide, nofun, nofun⟩

theorem Spells.kind_ne {start : Nat} {lexeme : List Char} {token : Token}
    (h : Spells start lexeme token) : token.kind ≠ .endOfInput := by
  cases h with
  | number => exact nofun
  | mark hkind => exact (mark_of_markKind? hkind).2.2.2

theorem Spells.span_eq {start : Nat} {lexeme : List Char} {token : Token}
    (h : Spells start lexeme token) : token.span = ⟨start, start + Text.byteLength lexeme⟩ := by
  cases h with
  | number => rfl
  | mark => simp [Token.mark]

theorem Spells.lexeme_eq {start : Nat} {lexeme : List Char} {token : Token}
    (h : Spells start lexeme token) : token.lexeme = lexeme := by
  cases h <;> rfl

/-- There are no blanks in a piece. -/
theorem Spells.not_blank {start : Nat} {lexeme : List Char} {token : Token}
    (h : Spells start lexeme token) : ∀ c ∈ lexeme, Text.isBlank c = false := by
  cases h with
  | number _ hdigits _ => exact fun c hc => Text.isBlank_eq_false_of_isDigit (hdigits c hc)
  | mark hkind => simpa using (mark_of_markKind? hkind).2.1

/-- A piece starts with a character that is no blank. -/
theorem Spells.exists_cons {start : Nat} {lexeme : List Char} {token : Token}
    (h : Spells start lexeme token) : ∃ c rest, lexeme = c :: rest ∧ Text.isBlank c = false := by
  have hne : lexeme ≠ [] := by
    cases h with
    | number hne _ _ => exact hne
    | mark _ => exact List.cons_ne_nil _ _
  obtain ⟨c, rest, rfl⟩ := List.exists_cons_of_ne_nil hne
  exact ⟨c, rest, rfl, h.not_blank c List.mem_cons_self⟩

theorem takeWhile_append_of_head? {p : Char → Bool} {left right : List Char}
    (hleft : ∀ c ∈ left, p c = true) (hright : ∀ c, right.head? = some c → p c = false) :
    (left ++ right).takeWhile p = left ∧ (left ++ right).dropWhile p = right := by
  rw [List.takeWhile_append_of_pos hleft, List.dropWhile_append_of_pos hleft]
  cases right with
  | nil => simp
  | cons c right => simp [hright c rfl]

/-- A scanner in front of a piece reads its token. -/
theorem token_of_spells {start : Nat} {lexeme rest : List Char} {token : Token} {finished : Bool}
    (h : Spells start lexeme token) (hrest : token.kind = .integer → NoDigit rest) :
    (⟨start, lexeme ++ rest, finished⟩ : Scanner).token =
      (.ok token, ⟨start + Text.byteLength lexeme, rest, finished⟩) := by
  cases h with
  | @number digits value hne hdigits hvalue =>
    obtain ⟨htake, hdrop⟩ := takeWhile_append_of_head? hdigits (hrest rfl)
    obtain ⟨c, others, rfl⟩ := List.exists_cons_of_ne_nil hne
    have hc : c.isDigit = true := hdigits c List.mem_cons_self
    rw [Scanner.token, List.cons_append]
    dsimp only
    rw [if_pos hc, ← List.cons_append]
    simp only [Scanner.number, skip, htake, hdrop, numberItem, hvalue]
  | @mark c kind hkind =>
    rw [Scanner.token, List.cons_append, List.nil_append]
    dsimp only
    rw [if_neg (by simp [(mark_of_markKind? hkind).1]), hkind]
    simp

/-- Blanks in front of a text do not change what is scanned. -/
theorem scan_append_of_blank {gap : List Char} (hgap : ∀ c ∈ gap, Text.isBlank c = true)
    (position : Nat) (rest : List Char) (finished : Bool) :
    (⟨position, gap ++ rest, finished⟩ : Scanner).scan =
      (⟨position + Text.byteLength gap, rest, finished⟩ : Scanner).scan := by
  simp only [scan, skip, List.takeWhile_append_of_pos hgap, List.dropWhile_append_of_pos hgap,
    Text.byteLength_append, Nat.add_assoc]

/-- The blanks in front of a piece are skipped. -/
theorem scan_of_spells {start : Nat} {gap lexeme rest : List Char} {token : Token} {finished : Bool}
    (hgap : ∀ c ∈ gap, Text.isBlank c = true)
    (h : Spells (start + Text.byteLength gap) lexeme token)
    (hrest : token.kind = .integer → NoDigit rest) :
    (⟨start, gap ++ (lexeme ++ rest), finished⟩ : Scanner).scan =
      (.ok token, ⟨start + Text.byteLength gap + Text.byteLength lexeme, rest, finished⟩) := by
  have hhead : ∀ c, (lexeme ++ rest).head? = some c → Text.isBlank c = false := by
    obtain ⟨c, others, rfl, hc⟩ := h.exists_cons
    intro c' hc'
    obtain rfl := Option.some.inj hc'
    exact hc
  obtain ⟨htake, hdrop⟩ := takeWhile_append_of_head? hgap hhead
  rw [scan, ← token_of_spells h hrest]
  simp only [skip, htake, hdrop]

theorem head?_dropWhile {p : Char → Bool} {text : List Char} {c : Char}
    (h : (text.dropWhile p).head? = some c) : p c = false := by
  have hnot := List.head?_dropWhile_not p text
  rw [h] at hnot
  simpa using hnot

/-- What a scan reads is a piece. -/
theorem exists_spells {s behind : Scanner} {token : Token} (hscan : s.scan = (.ok token, behind))
    (hmore : token.kind ≠ .endOfInput) :
    ∃ gap lexeme, s.rest = gap ++ (lexeme ++ behind.rest) ∧
      (∀ c ∈ gap, Text.isBlank c = true) ∧ Spells (s.position + Text.byteLength gap) lexeme token ∧
      behind.position = s.position + Text.byteLength gap + Text.byteLength lexeme ∧
      (token.kind = .integer → NoDigit behind.rest) := by
  have hgap : ∀ c ∈ s.rest.takeWhile Text.isBlank, Text.isBlank c = true := fun c hc =>
    List.mem_takeWhile_imp hc
  have hsplit : s.rest.takeWhile Text.isBlank ++ s.rest.dropWhile Text.isBlank = s.rest :=
    List.takeWhile_append_dropWhile
  unfold scan at hscan
  generalize hskip : s.skip Text.isBlank = skipped at hscan
  -- from here on only the two parts of the text matter, not how they were split
  obtain rfl : ⟨s.position + Text.byteLength (s.rest.takeWhile Text.isBlank),
    s.rest.dropWhile Text.isBlank, s.finished⟩ = skipped := hskip
  generalize s.rest.takeWhile Text.isBlank = gap at *
  generalize s.rest.dropWhile Text.isBlank = text at *
  unfold Scanner.token at hscan
  split at hscan
  · simp only [Prod.mk.injEq, Except.ok.injEq] at hscan
    obtain ⟨rfl, -⟩ := hscan
    exact absurd rfl hmore
  · next c rest htext =>
    obtain rfl : text = c :: rest := htext
    split at hscan
    · next hc =>
      simp only [Scanner.number, skip, numberItem, Prod.mk.injEq] at hscan
      obtain ⟨hitem, rfl⟩ := hscan
      split at hitem
      · next value hvalue =>
        obtain rfl := Except.ok.inj hitem
        refine ⟨gap, (c :: rest).takeWhile Char.isDigit, ?_, hgap, .number ?_ ?_ hvalue, rfl, ?_⟩
        · rw [List.takeWhile_append_dropWhile, hsplit]
        · rw [List.takeWhile_cons, if_pos hc]
          exact List.cons_ne_nil _ _
        · exact fun c hc => List.mem_takeWhile_imp hc
        · exact fun _ c hc => head?_dropWhile hc
      · cases hitem
    · split at hscan
      · next kind hkind =>
        simp only [Prod.mk.injEq, Except.ok.injEq] at hscan
        obtain ⟨rfl, rfl⟩ := hscan
        refine ⟨gap, [c], hsplit.symm, hgap, .mark hkind, by simp, ?_⟩
        exact fun hinteger => absurd hinteger (mark_of_markKind? hkind).2.2.1
      · cases (congrArg Prod.fst hscan)

/-- A text ends where only blanks are left. -/
theorem scan_of_blank {s : Scanner} (h : ∀ c ∈ s.rest, Text.isBlank c = true) :
    s.scan.1 = .ok (.endOfInput (s.position + Text.byteLength s.rest)) := by
  have htake : s.rest.takeWhile Text.isBlank = s.rest := List.takeWhile_eq_self_iff.mpr h
  have hdrop : s.rest.dropWhile Text.isBlank = [] := List.dropWhile_eq_nil_iff.mpr h
  simp only [scan, skip, htake, hdrop, Scanner.token]

theorem blank_of_scan_end {s : Scanner} {token : Token} (hscan : s.scan.1 = .ok token)
    (hend : token.kind = .endOfInput) : ∀ c ∈ s.rest, Text.isBlank c = true := by
  rw [← List.dropWhile_eq_nil_iff]
  unfold scan Scanner.token skip at hscan
  split at hscan
  · next hnil => exact hnil
  · split at hscan
    · simp only [Scanner.number, numberItem] at hscan
      split at hscan
      · obtain rfl := Except.ok.inj hscan
        cases hend
      · cases hscan
    · split at hscan
      · next kind hkind =>
        obtain rfl := Except.ok.inj hscan
        exact absurd hend (mark_of_markKind? hkind).2.2.2
      · cases hscan

/-! ## Runs of pieces -/

/-- Tokens are read from a text at an offset, if no number goes on behind it. -/
def Covers (start : Nat) (text : List Char) (tokens : List Token) : Prop :=
  ∀ rest finished, NoDigit rest →
    Reads ⟨start, text ++ rest, finished⟩ tokens ⟨start + Text.byteLength text, rest, finished⟩

theorem NoDigit.append {text rest rest' : List Char} (h : NoDigit (text ++ rest))
    (hrest : NoDigit rest') : NoDigit (text ++ rest') := by
  cases text with
  | nil => exact hrest
  | cons c text => exact h

theorem isDigit_eq_false_of_isBlank {c : Char} (h : Text.isBlank c = true) : c.isDigit = false := by
  cases hdigit : c.isDigit with
  | false => rfl
  | true => simp [Text.isBlank_eq_false_of_isDigit hdigit] at h

theorem noDigit_of_blank {text : List Char} (h : ∀ c ∈ text, Text.isBlank c = true) :
    NoDigit text :=
  fun c hc => isDigit_eq_false_of_isBlank (h c (List.mem_of_head? hc))

/-- No number goes on with blanks, nor with what no number goes on with behind them. -/
theorem noDigit_append_of_blank {gap rest : List Char} (hgap : ∀ c ∈ gap, Text.isBlank c = true)
    (hrest : NoDigit rest) : NoDigit (gap ++ rest) := by
  cases gap with
  | nil => exact hrest
  | cons c gap =>
    intro d hd
    obtain rfl : c = d := Option.some.inj hd
    exact isDigit_eq_false_of_isBlank (hgap c List.mem_cons_self)

theorem Covers.cons {start : Nat} {gap lexeme text : List Char} {token : Token}
    {tokens : List Token} (hgap : ∀ c ∈ gap, Text.isBlank c = true)
    (h : Spells (start + Text.byteLength gap) lexeme token)
    (hrest : token.kind = .integer → ∀ rest, NoDigit rest → NoDigit (text ++ rest))
    (others : Covers (start + Text.byteLength gap + Text.byteLength lexeme) text tokens) :
    Covers start (gap ++ (lexeme ++ text)) (token :: tokens) := by
  intro rest finished hno
  have hnext := others rest finished hno
  have hapart : token.kind = .integer → NoDigit (text ++ rest) :=
    fun hinteger => hrest hinteger rest hno
  have hreads := Reads.cons (scan_of_spells hgap h hapart) h.kind_ne hnext
  simpa [Nat.add_assoc] using hreads

theorem Covers.append {start : Nat} {left right : List Char} {before after : List Token}
    (hleft : Covers start left before)
    (hright : Covers (start + Text.byteLength left) right after)
    (hapart : ∀ rest, NoDigit rest → NoDigit (right ++ rest)) :
    Covers start (left ++ right) (before ++ after) := by
  intro rest finished hrest
  have hreads := (hleft (right ++ rest) finished (hapart rest hrest)).append
    (hright rest finished hrest)
  simpa [Nat.add_assoc] using hreads

/-- What is read is a text of its own, wherever it stands. -/
theorem Reads.exists_text {s t : Scanner} {tokens : List Token} (h : Reads s tokens t) :
    ∃ text, s.rest = text ++ t.rest ∧ t.position = s.position + Text.byteLength text ∧
      Covers s.position text tokens := by
  induction h with
  | nil s =>
    refine ⟨[], rfl, rfl, ?_⟩
    intro rest finished _
    exact .nil _
  | @cons s behind t token tokens hscan hmore _ ih =>
    obtain ⟨gap, lexeme, hrest, hgap, hspells, hposition, hno⟩ := exists_spells hscan hmore
    obtain ⟨text, hbehind, hend, hcovers⟩ := ih
    rw [hposition] at hend hcovers
    rw [hbehind] at hrest hno
    refine ⟨gap ++ (lexeme ++ text), ?_, ?_, hcovers.cons hgap hspells ?_⟩
    · rw [hrest]
      simp
    · rw [hend]
      simp [Nat.add_assoc]
    · exact fun hinteger rest hnext => (hno hinteger).append hnext

/-- The blanks in front of the first token can be left out. -/
theorem Reads.exists_gap {s t : Scanner} {token : Token} {tokens : List Token}
    (h : Reads s (token :: tokens) t) :
    ∃ gap text, s.rest = gap ++ (text ++ t.rest) ∧ (∀ c ∈ gap, Text.isBlank c = true) ∧
      token.span.start = s.position + Text.byteLength gap ∧
      t.position = s.position + Text.byteLength gap + Text.byteLength text ∧
      Covers (s.position + Text.byteLength gap) text (token :: tokens) := by
  cases h with
  | @cons _ behind _ _ _ hscan hmore others =>
    obtain ⟨gap, lexeme, hrest, hgap, hspells, hposition, hno⟩ := exists_spells hscan hmore
    obtain ⟨text, hbehind, hend, hcovers⟩ := others.exists_text
    rw [hposition] at hend hcovers
    rw [hbehind] at hrest hno
    refine ⟨gap, lexeme ++ text, ?_, hgap, by rw [hspells.span_eq], ?_, ?_⟩
    · rw [hrest]
      simp
    · rw [hend]
      simp [Nat.add_assoc]
    · have hcovers' : Covers (s.position + Text.byteLength gap) ([] ++ (lexeme ++ text))
          (token :: tokens) :=
        Covers.cons (by simp) hspells (fun hinteger rest hnext => (hno hinteger).append hnext) hcovers
      exact hcovers'

/-! ## Pieces that are moved -/

/-- A scanner at an offset that is larger by some bytes. -/
def shift (offset : Nat) (s : Scanner) : Scanner := { s with position := offset + s.position }

theorem token_shift (offset : Nat) (s : Scanner) :
    (s.shift offset).token = (s.token.1.shift offset, s.token.2.shift offset) := by
  unfold Scanner.token shift
  dsimp only
  split
  · rfl
  · split
    · simp only [Scanner.number, numberItem, skip, Nat.add_assoc]
      split <;> rfl
    · split <;> simp [Item.shift, Token.shift, Fault.shift, Token.mark, Span.shift, Nat.add_assoc]

/-- A scan finds the same at another offset, only moved. -/
theorem scan_shift (offset : Nat) (s : Scanner) :
    (s.shift offset).scan = (s.scan.1.shift offset, s.scan.2.shift offset) := by
  have hskip : (s.shift offset).skip Text.isBlank = (s.skip Text.isBlank).shift offset := by
    simp [skip, shift, Nat.add_assoc]
  rw [scan, hskip, token_shift]
  rfl

theorem Reads.shift {s t : Scanner} {tokens : List Token} (h : Reads s tokens t) (offset : Nat) :
    Reads (s.shift offset) (tokens.map (Token.shift offset)) (t.shift offset) := by
  induction h with
  | nil s => exact .nil _
  | @cons s behind t token tokens hscan hmore _ ih =>
    have hmoved : (s.shift offset).scan = (.ok (token.shift offset), behind.shift offset) := by
      rw [scan_shift, hscan]
      rfl
    exact .cons hmoved hmore ih

/-- What is read at a larger offset is what is read at the smaller one, moved. -/
theorem Reads.unshift {s u : Scanner} {tokens : List Token} {offset : Nat}
    (h : Reads (s.shift offset) tokens u) :
    ∃ tokens' t, tokens = tokens'.map (Token.shift offset) ∧ u = t.shift offset ∧
      Reads s tokens' t := by
  generalize hs : s.shift offset = moved at h
  induction h generalizing s with
  | nil =>
    exact ⟨[], s, rfl, hs.symm, .nil s⟩
  | @cons moved behind u token tokens hscan hmore _ ih =>
    subst hs
    rw [scan_shift] at hscan
    obtain ⟨hitem, hbehind⟩ := Prod.mk.inj hscan
    rcases hfirst : s.scan with ⟨item, next⟩
    rw [hfirst] at hitem hbehind
    cases item with
    | error fault => cases hitem
    | ok first =>
      obtain rfl : first.shift offset = token := Except.ok.inj hitem
      obtain ⟨others, t, rfl, rfl, hreads⟩ := ih hbehind
      exact ⟨first :: others, t, rfl, rfl, .cons hfirst hmore hreads⟩

theorem Covers.shift {start : Nat} {text : List Char} {tokens : List Token}
    (h : Covers start text tokens) (offset : Nat) :
    Covers (offset + start) text (tokens.map (Token.shift offset)) := by
  intro rest finished hrest
  have hreads := (h rest finished hrest).shift offset
  rwa [Scanner.shift, Scanner.shift, ← Nat.add_assoc] at hreads

theorem Covers.unshift {start offset : Nat} {text : List Char} {tokens : List Token}
    (h : Covers (offset + start) text tokens) :
    ∃ tokens', tokens = tokens'.map (Token.shift offset) ∧ Covers start text tokens' := by
  have hreads : Reads (Scanner.shift offset ⟨start, text ++ [], false⟩) tokens
      ⟨offset + start + Text.byteLength text, [], false⟩ := h [] false nofun
  -- with nothing behind the text, what is read at the smaller offset is all of it
  obtain ⟨tokens', t, htokens, ht, hreads'⟩ := hreads.unshift
  obtain ⟨text', htext, -, hcovers⟩ := hreads'.exists_text
  have hend : t.rest = [] := (congrArg Scanner.rest ht).symm
  rw [hend, List.append_nil, List.append_nil] at htext
  obtain rfl : text = text' := htext
  exact ⟨tokens', htokens, hcovers⟩

theorem map_symbol_shift (offset : Nat) (tokens : List Token) :
    (tokens.map (Token.shift offset)).map Grammar.symbol = tokens.map Grammar.symbol := by
  rw [List.map_map]
  rfl

/-! ## Whole texts -/

/-- The tokens of a whole text. Behind the last of them there are only blanks. -/
def Lexes (text : List Char) (tokens : List Token) : Prop :=
  ∃ body gap, text = body ++ gap ∧ Covers 0 body tokens ∧ ∀ c ∈ gap, Text.isBlank c = true

/-- A text of tokens is what is streamed to its end. -/
theorem lexes_iff {text : List Char} {tokens : List Token} :
    Lexes text tokens ↔ ∃ last, (ofSource text).Streams tokens (.ok last) := by
  constructor
  · rintro ⟨body, gap, rfl, hbody, hgap⟩
    have hreads := hbody gap false (noDigit_of_blank hgap)
    have hlast := scan_of_blank (s := ⟨0 + Text.byteLength body, gap, false⟩) hgap
    exact ⟨_, (streams_iff rfl).mpr ⟨_, hreads, hlast, rfl⟩⟩
  · rintro ⟨last, h⟩
    obtain ⟨t, hreads, hlast, hend⟩ := (streams_iff rfl).mp h
    obtain ⟨body, htext, -, hbody⟩ := hreads.exists_text
    refine ⟨body, t.rest, htext, hbody, blank_of_scan_end hlast ?_⟩
    simpa [Item.isLast] using hend

/-- A mark between two texts keeps their tokens apart. -/
theorem Lexes.exists_mark {left right : List Char} {before after : List Token} {c : Char}
    {kind : Token.Kind} (hleft : Lexes left before) (hkind : markKind? c = some kind)
    (hright : Lexes right after) :
    ∃ token after', Lexes (left ++ c :: right) (before ++ token :: after') ∧ token.kind = kind ∧
      after'.map Grammar.symbol = after.map Grammar.symbol := by
  obtain ⟨body, gap, rfl, hbefore, hgap⟩ := hleft
  obtain ⟨body', gap', rfl, hafter, hgap'⟩ := hright
  have hmoved := hafter.shift (Text.byteLength body + Text.byteLength gap + c.utf8Size)
  have hmark : Covers (0 + Text.byteLength body) (gap ++ ([c] ++ body'))
      (.mark kind c (Text.byteLength body + Text.byteLength gap) ::
        after.map (Token.shift (Text.byteLength body + Text.byteLength gap + c.utf8Size))) := by
    refine Covers.cons hgap ?_ ?_ ?_
    · rw [Nat.zero_add]
      exact .mark hkind
    · exact fun hinteger => absurd hinteger (mark_of_markKind? hkind).2.2.1
    · simpa using hmoved
  refine ⟨_, _, ⟨body ++ (gap ++ ([c] ++ body')), gap', by simp, hbefore.append hmark ?_, hgap'⟩,
    rfl, map_symbol_shift _ _⟩
  -- a number in front of the mark ends there, or at the blanks before
  intro rest _
  have hc : NoDigit (c :: (body' ++ rest)) := by
    intro d hd
    obtain rfl : c = d := Option.some.inj hd
    exact (mark_of_markKind? hkind).1
  have hno := noDigit_append_of_blank hgap hc
  simpa using hno

/-! ## Places of tokens -/

theorem Reads.stop_eq {s t : Scanner} {tokens : List Token} {last : Token} (h : Reads s tokens t)
    (hlast : tokens.getLast? = some last) : last.span.stop = t.position := by
  induction h with
  | nil => cases hlast
  | @cons s behind t token tokens hscan hmore others ih =>
    cases tokens with
    | nil =>
      obtain rfl : token = last := Option.some.inj hlast
      cases others with
      | nil =>
      obtain ⟨gap, lexeme, -, -, hspells, hposition, -⟩ := exists_spells hscan hmore
      rw [hspells.span_eq, hposition]
    | cons next tokens => exact ih (by rwa [List.getLast?_cons_cons] at hlast)

/-- Tokens that are read start where the reading starts or later, and are in order. -/
theorem Reads.inOrder {s t : Scanner} {tokens : List Token} (h : Reads s tokens t) :
    (∀ token ∈ tokens, s.position ≤ token.span.start) ∧ Token.InOrder tokens := by
  induction h with
  | nil => exact ⟨by simp, by simp, .nil⟩
  | @cons s behind t token tokens hscan hmore _ ih =>
    obtain ⟨gap, lexeme, -, -, hspells, hposition, -⟩ := exists_spells hscan hmore
    obtain ⟨hstarts, hsizes, hpairs⟩ := ih
    have hspan := hspells.span_eq
    have hstart : s.position ≤ token.span.start := by
      rw [hspan]
      exact Nat.le_add_right _ _
    have hsize : token.span.start ≤ token.span.stop := by
      rw [hspan]
      exact Nat.le_add_right _ _
    have hstop : token.span.stop = behind.position := by rw [hspan, hposition]
    refine ⟨List.forall_mem_cons.mpr ⟨hstart, fun other hother => ?_⟩,
      List.forall_mem_cons.mpr ⟨hsize, hsizes⟩, List.pairwise_cons.mpr ⟨fun other hother => ?_, hpairs⟩⟩
    · have h := hstarts other hother
      omega
    · have h := hstarts other hother
      omega

theorem Lexes.inOrder {text : List Char} {tokens : List Token} (h : Lexes text tokens) :
    Token.InOrder tokens := by
  obtain ⟨body, gap, -, hbody, -⟩ := h
  exact (hbody [] false nofun).inOrder.2

/-- Some of the tokens of a text, from a first one to a last one, are the tokens of the text between
the places of these two, moved; and those behind them are the tokens of the text behind. -/
theorem Lexes.exists_middle {source : List Char} {before inner after : List Token}
    {first last : Token} (h : Lexes source (before ++ inner ++ after))
    (hfirst : inner.head? = some first) (hlast : inner.getLast? = some last) :
    ∃ left middle right inner' after', source = left ++ middle ++ right ∧
      Text.byteLength left = first.span.start ∧
      Text.byteLength (left ++ middle) = last.span.stop ∧
      Lexes left before ∧ Lexes middle inner' ∧ Lexes right after' ∧
      inner = inner'.map (Token.shift (Text.byteLength left)) ∧
      after = after'.map (Token.shift (Text.byteLength (left ++ middle))) := by
  obtain ⟨body, gap, rfl, hbody, hgap⟩ := h
  obtain ⟨t, hboth, hafter⟩ := (hbody gap false (noDigit_of_blank hgap)).split
  obtain ⟨s, hbefore, hinner⟩ := hboth.split
  have hstop : last.span.stop = t.position := hinner.stop_eq hlast
  obtain ⟨left, hleft, hposition, hcleft⟩ := hbefore.exists_text
  obtain ⟨others, rfl⟩ := List.head?_eq_some_iff.mp hfirst
  obtain ⟨blanks, middle, hmiddle, hblanks, hstart, hend, hcmiddle⟩ := hinner.exists_gap
  obtain ⟨right, hright, -, hcright⟩ := hafter.exists_text
  have hcmiddle' : Covers (s.position + Text.byteLength blanks + 0) middle (first :: others) :=
    hcmiddle
  have hcright' : Covers (t.position + 0) right after := hcright
  obtain ⟨inner', hinner', hcinner⟩ := hcmiddle'.unshift
  obtain ⟨after', hafter', hcafter⟩ := hcright'.unshift
  have hfrom : Text.byteLength (left ++ blanks) = s.position + Text.byteLength blanks := by
    rw [Text.byteLength_append, hposition]
    simp
  have hto : Text.byteLength (left ++ blanks ++ middle) = t.position := by
    rw [Text.byteLength_append, hfrom, hend]
  refine ⟨left ++ blanks, middle, right ++ gap, inner', after', ?_, ?_, ?_,
    ⟨left, blanks, rfl, hcleft, hblanks⟩, ⟨middle, [], by simp, hcinner, nofun⟩,
    ⟨right, gap, rfl, hcafter, hgap⟩, by rw [hfrom, hinner'], by rw [hto, hafter']⟩
  · calc body ++ gap = left ++ s.rest := hleft
      _ = left ++ (blanks ++ (middle ++ (right ++ gap))) := by rw [hmiddle, hright]
      _ = left ++ blanks ++ middle ++ (right ++ gap) := by simp
  · rw [hfrom, hstart]
  · rw [hto, hstop]

end Scanner

end Calculator
