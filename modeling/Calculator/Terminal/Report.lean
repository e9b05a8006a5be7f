import Calculator.Fault
import Calculator.Text.Line

/-!
# Reports

A fault as it is reported: a header with the title in colour, the place in the source, a label on the
characters at fault with the message once more, and the advice if there is some.

The calculator makes the header, the label and the advice, and leaves it to a printer of reports to show
them. The place is the printer's. It counts lines and columns up to the first character of the label, in
its own way (`Text.placeAt`), and in an empty source it has no place to show, so that of such a report
only the header is seen.
-/

namespace Calculator

/-- The title that a kind of fault is reported under. -/
def Fault.Kind.title : Fault.Kind → String
  | .lexical => "Lexical Error"
  | .grammar => "Parse Error"
  | .divisionByZero => "Division By Zero"
  | .runtime => "Runtime Error"

namespace Terminal

/-- The colours of a terminal. -/
inductive Colour where
  | red
  | yellow
  | magenta
  | cyan
  deriving DecidableEq

/-- The code that a terminal knows a colour by. -/
def Colour.code : Colour → String
  | .red => "31"
  | .yellow => "33"
  | .magenta => "35"
  | .cyan => "36"

/-- A text in a colour. -/
def Colour.paint (colour : Colour) (text : String) : String :=
  "\x1b[" ++ colour.code ++ "m" ++ text ++ "\x1b[0m"

/-- The colour of the title of a kind of fault. -/
def kindColour : Fault.Kind → Colour
  | .lexical => .red
  | .grammar => .yellow
  | .divisionByZero | .runtime => .magenta

/-- A mark on a part of the source. -/
structure Label where
  /-- The characters that are marked, counted from the start of the source. -/
  range : Span
  message : String
  colour : Colour
  deriving DecidableEq

/-- A label in words. -/
def Label.text (label : Label) : String :=
  String.ofList (Text.numeral label.range.start) ++ ".." ++
    String.ofList (Text.numeral label.range.stop) ++ ": " ++ label.colour.paint label.message

/-- A fault as it is reported. -/
structure Report where
  header : String
  location : Option String
  label : Label
  help : Option String
  deriving DecidableEq

/-- A report in words, each part on a line. Without a place the label is not shown. -/
def Report.text (report : Report) : String :=
  let places := report.location.toList.map fun location => "at " ++ location ++ ", " ++ report.label.text
  (places ++ report.help.toList).foldl (fun text part => text ++ "\n  " ++ part)
    ("Error: " ++ report.header)

/-- A place in a source with a name, line before column. -/
def locationText (name : String) : Option Text.Place → String
  | some place =>
    name ++ ":" ++ String.ofList (Text.numeral place.line) ++ ":" ++
      String.ofList (Text.numeral place.column)
  | none => name ++ ":?:?"

/-- The label of a fault in a source. -/
def Label.ofDiagnostic (source : List Char) (diagnostic : Diagnostic) : Label :=
  ⟨diagnostic.span.chars source, diagnostic.message, kindColour diagnostic.kind⟩

/-- The report of a fault in a source that goes by `name`. -/
def Report.ofDiagnostic (name : String) (source : List Char) (diagnostic : Diagnostic) : Report :=
  let header :=
    (kindColour diagnostic.kind).paint diagnostic.kind.title ++ ": " ++ diagnostic.message
  let label := Label.ofDiagnostic source diagnostic
  if source.isEmpty then ⟨header, none, label, none⟩
  else
    let place := Text.placeAt source label.range.start
    let help := diagnostic.help.map fun help => Colour.cyan.paint "help" ++ ": " ++ help
    ⟨header, some (locationText name place), label, help⟩

end Terminal

end Calculator
