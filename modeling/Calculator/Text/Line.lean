/-!
# Lines and columns

A report names a place by its line and its column, and these are counted as the printer of reports
counts them. A line ends after a line feed, a vertical tab, a form feed, a carriage return, a carriage
return with a line feed, U+0085, U+2028 or U+2029. A terminator that closes the text opens no further
line, so the end of such a text still counts on its last line.
-/

namespace Calculator.Text

/-- The characters that end a line on their own. -/
def isLineEnd (c : Char) : Bool :=
  c = '\n' || c = '\x0B' || c = '\x0C' || c = '\r' || c = '\u0085' || c = '\u2028' || c = '\u2029'

/-- Whether a line ends between `c` and the text that follows it: a terminator must stand there,
not the first half of a carriage return with line feed, and not at the end of the text. -/
def breaksAfter (c : Char) : List Char → Bool
  | [] => false
  | next :: _ => isLineEnd c && !(c = '\r' && next = '\n')

/-- A place in a text, line and column both counted from one. -/
structure Place where
  line : Nat
  column : Nat
  deriving DecidableEq, Repr

namespace Place

/-- The first place of a text. -/
def start : Place := ⟨1, 1⟩

/-- The place after a character, given whether a line ends there. -/
def next (place : Place) (breaks : Bool) : Place :=
  if breaks then ⟨place.line + 1, 1⟩ else ⟨place.line, place.column + 1⟩

/-- The place `count` characters behind `place`, where `text` is what stands there; none if the
text is shorter. -/
def after (place : Place) : List Char → Nat → Option Place
  | _, 0 => some place
  | [], _ + 1 => none
  | c :: text, count + 1 => (place.next (breaksAfter c text)).after text count

end Place

/-- The place that lies `count` characters into a text. -/
def placeAt (text : List Char) (count : Nat) : Option Place :=
  Place.start.after text count

/-- A carriage return with its line feed ends one line, and each alone ends one too. -/
example : placeAt "a\r\nb\rc".toList 3 = some ⟨2, 1⟩ ∧ placeAt "a\r\nb\rc".toList 5 = some ⟨3, 1⟩ := by
  decide

/-- The end of a text that closes with a terminator is on its last line. -/
example : placeAt "ab\n".toList 3 = some ⟨1, 4⟩ := by decide

end Calculator.Text
