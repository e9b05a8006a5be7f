import Calculator.Terminal.Response

/-!
# Sessions

A session answers one line after the other. It starts with a banner, and before each line it shows a
prompt. It stops at a line that is not UTF-8, at `exit` or `quit`, or at the end of the input.

A line is answered by itself: no line changes what another one gives.
-/

namespace Calculator.Terminal

/-! ## Lines -/

/-- The lines of an input, each with the line feed that ends it. The last one may lack it. -/
def splitLines : List UInt8 → List (List UInt8)
  | [] => []
  | byte :: rest =>
    if byte = 10 then [byte] :: splitLines rest
    else
      match splitLines rest with
      | [] => [[byte]]
      | line :: lines => (byte :: line) :: lines

/-- Nothing is lost between the lines. -/
theorem flatten_splitLines (input : List UInt8) : (splitLines input).flatten = input := by
  induction input with
  | nil => rfl
  | cons byte rest ih =>
    unfold splitLines
    split
    · simp [ih]
    · split
      · next h => simp_all
      · next line lines h => simp_all

/-- The characters of a line, if it is UTF-8. -/
def decodeLine (line : List UInt8) : Option (List Char) :=
  (String.fromUTF8? ⟨line.toArray⟩).map String.toList

/-! ## Commands -/

/-- What a line asks for. -/
inductive LineCommand where
  | nothing
  | leave
  | samples
  | outline (source : List Char)
  | value (source : List Char)
  deriving DecidableEq

/-- Whether a text is a word of ASCII, in small or capital letters. -/
def isWord (word : String) (text : List Char) : Bool :=
  text.map Char.toLower = word.toList

/-- The source behind the word `ast` and at least one blank. -/
def outlineSource? : List Char → Option (List Char)
  | 'a' :: 's' :: 't' :: c :: rest =>
    if Text.isBlank c then some (Text.trimStart rest) else none
  | _ => none

/-- The command of a line. Blanks around it do not count. -/
def LineCommand.ofLine (line : List Char) : LineCommand :=
  let text := Text.trim line
  if text.isEmpty then .nothing
  else if isWord "exit" text || isWord "quit" text then .leave
  else if isWord "test" text then .samples
  else
    match outlineSource? text with
    | some source => .outline source
    | none => .value text

/-! ## The session -/

/-- The name that a source typed in a session goes by. -/
def sessionName : String := "<repl>"

/-- What a session starts with. -/
def banner : Response :=
  .ofLines
    ["arith 0.1.0".toList, "Supports +, -, *, / and parentheses".toList,
     "Type 'exit' to quit, 'test' for sample expressions, 'ast <expr>' to show a tree".toList, []]

/-- What is shown before a line is read. -/
def prompt : Response := ⟨"> ".toList, []⟩

/-- What is shown when the input ends. -/
def closing : Response := .ofLines [[]]

/-- The answer to a line, and whether the session stops with it. -/
structure Answer where
  response : Response
  stops : Bool
  deriving DecidableEq

/-- The answer to a command. -/
def LineCommand.answer : LineCommand → Answer
  | .nothing => ⟨.silent, false⟩
  | .leave => ⟨.ofLines ["Goodbye!".toList], true⟩
  | .samples => ⟨respondSamples, false⟩
  | .outline source => ⟨respondOutline sessionName source, false⟩
  | .value source => ⟨respondValue sessionName source, false⟩

/-- The answer to a line as it was read. -/
def answerLine (line : List UInt8) : Answer :=
  match decodeLine line with
  | some text => (LineCommand.ofLine text).answer
  | none => ⟨⟨[], [.unreadableLine]⟩, true⟩

/-- The answers to lines, each behind a prompt, up to one that stops the session. -/
def answerLines : List (List UInt8) → Response
  | [] => prompt ++ closing
  | line :: lines =>
    let answer := answerLine line
    prompt ++ answer.response ++ if answer.stops then .silent else answerLines lines

/-- A whole session. -/
def session (input : List UInt8) : Response :=
  banner ++ answerLines (splitLines input)

end Calculator.Terminal
