import Calculator.Fault
import Calculator.Text.Blank

/-!
# Scanning

A scanner stands at a place in a source text and reads one token after the other. Blanks before a
token are skipped; a number is the longest run of digits; the other tokens are single characters.

`scan` always answers: at the end of the text with the end of the input, as often as it is asked,
and at a character that starts no token with a fault, without moving past that character. A number
that is too large is a fault too, but the scanner moves on behind it.

`next?` is the same reading as a stream that ends: after the end of the input, or after a fault,
it answers no more. `items` is that stream to its end. It is finite because every token before the
last takes characters away (`scan_length_lt`).
-/

namespace Calculator

/-- A place in a source text: the offset, the text from there on, and whether the stream of items
has ended. -/
structure Scanner where
  position : Nat
  rest : List Char
  finished : Bool
  deriving DecidableEq

/-- What a scan finds: a token or a fault. -/
abbrev Item := Except Fault Token

/-- Whether a stream ends with an item. -/
def Item.isLast : Item → Bool
  | .ok token => token.kind = .endOfInput
  | .error _ => true

namespace Scanner

/-- A scanner at the start of a text. -/
def ofSource (source : List Char) : Scanner := ⟨0, source, false⟩

/-- The scanner behind the longest run of characters of a class. -/
def skip (p : Char → Bool) (s : Scanner) : Scanner :=
  { s with
    position := s.position + Text.byteLength (s.rest.takeWhile p)
    rest := s.rest.dropWhile p }

/-- The kind of a token of one character. -/
def markKind? (c : Char) : Option Token.Kind :=
  if c = '(' then some .leftParen
  else if c = ')' then some .rightParen
  else (Operator.ofSymbol? c).map .operator

/-- The number that a run of digits from a span stands for. -/
def numberItem (digits : List Char) (span : Span) : Item :=
  match Word.ofInt? (Text.readNumeral digits) with
  | some value => .ok (.integer value digits span)
  | none => .error ⟨.numberTooLarge digits, span⟩

/-- Reads the number that starts here. -/
def number (s : Scanner) : Item × Scanner :=
  let behind := s.skip Char.isDigit
  (numberItem (s.rest.takeWhile Char.isDigit) ⟨s.position, behind.position⟩, behind)

/-- Reads the token that starts here, with no blanks before it. -/
def token (s : Scanner) : Item × Scanner :=
  match s.rest with
  | [] => (.ok (.endOfInput s.position), s)
  | c :: rest =>
    if c.isDigit then s.number
    else
      match markKind? c with
      | some kind =>
        (.ok (.mark kind c s.position), { s with position := s.position + c.utf8Size, rest })
      | none =>
        (.error ⟨.unexpectedCharacter c, ⟨s.position, s.position + c.utf8Size⟩⟩, s)

/-- Reads the next token. -/
def scan (s : Scanner) : Item × Scanner :=
  (s.skip Text.isBlank).token

/-- The next item of the stream, if it has not ended. -/
def next? (s : Scanner) : Option Item × Scanner :=
  if s.finished then (none, s)
  else
    let (item, behind) := s.scan
    (some item, { behind with finished := item.isLast })

/-! ## The stream ends -/

theorem skip_length_le (p : Char → Bool) (s : Scanner) : (s.skip p).rest.length ≤ s.rest.length :=
  (List.dropWhile_sublist p).length_le

theorem skip_length_lt {p : Char → Bool} {s : Scanner} {c : Char} {rest : List Char}
    (hrest : s.rest = c :: rest) (hc : p c = true) : (s.skip p).rest.length < s.rest.length := by
  have hle := (List.dropWhile_sublist p (l := rest)).length_le
  simp only [skip, hrest, List.dropWhile_cons, hc, if_true, List.length_cons]
  omega

theorem token_length_lt {s : Scanner} (h : s.token.1.isLast = false) :
    s.token.2.rest.length < s.rest.length := by
  unfold token at h ⊢
  cases hrest : s.rest with
  | nil => simp [hrest, Item.isLast, Token.endOfInput] at h
  | cons c rest =>
    simp only [hrest] at h ⊢
    by_cases hc : c.isDigit = true
    · rw [if_pos hc, ← hrest]
      exact skip_length_lt hrest hc
    · rw [if_neg hc] at h ⊢
      cases hkind : markKind? c with
      | none => simp [hkind, Item.isLast] at h
      | some kind => simp

/-- Every item but the last of a stream takes characters away. -/
theorem scan_length_lt {s : Scanner} (h : s.scan.1.isLast = false) :
    s.scan.2.rest.length < s.rest.length :=
  Nat.lt_of_lt_of_le (token_length_lt h) (skip_length_le Text.isBlank s)

/-- The items that a stream still has at most. -/
def remaining (s : Scanner) : Nat := if s.finished then 0 else s.rest.length + 1

theorem next?_remaining_lt {s t : Scanner} {item : Item} (h : s.next? = (some item, t)) :
    t.remaining < s.remaining := by
  unfold next? at h
  split at h
  · simp at h
  · next hopen =>
    rcases hscan : s.scan with ⟨found, behind⟩
    simp only [hscan, Prod.mk.injEq, Option.some.injEq] at h
    obtain ⟨rfl, rfl⟩ := h
    cases hlast : found.isLast with
    | true => simp [remaining, hopen]
    | false =>
      have hlt := scan_length_lt (s := s) (by rw [hscan]; exact hlast)
      simp only [hscan] at hlt
      simp only [remaining, hopen, Bool.false_eq_true, if_false]
      omega

/-- The rest of the stream, and the scanner at its end. -/
def items (s : Scanner) : List Item × Scanner :=
  match _next : s.next? with
  | (none, behind) => ([], behind)
  | (some item, behind) =>
    let (others, last) := behind.items
    (item :: others, last)
termination_by s.remaining
decreasing_by exact next?_remaining_lt _next

end Scanner

end Calculator
