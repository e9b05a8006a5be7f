import Calculator.Operator
import Calculator.Span
import Calculator.Word

/-!
# Tokens

The units that a source text is read in: numbers, operators, parentheses and the end of the input.
A token keeps the characters it was read from, and a number its value besides.
-/

namespace Calculator

/-- What a token is. -/
inductive Token.Kind where
  | integer
  | operator (operator : Operator)
  | leftParen
  | rightParen
  | endOfInput
  deriving DecidableEq, Repr

/-- The name of a kind of token. -/
def Token.Kind.name : Token.Kind → String
  | .integer => "INTEGER"
  | .operator .add => "PLUS"
  | .operator .subtract => "MINUS"
  | .operator .multiply => "MUL"
  | .operator .divide => "DIV"
  | .leftParen => "LPAREN"
  | .rightParen => "RPAREN"
  | .endOfInput => "EOF"

/-- A token, with the characters and the span it was read from. -/
structure Token where
  kind : Token.Kind
  lexeme : List Char
  value : Option Word
  span : Span
  deriving DecidableEq

namespace Token

/-- A number. -/
def integer (value : Word) (lexeme : List Char) (span : Span) : Token :=
  ⟨.integer, lexeme, some value, span⟩

/-- A token of one character, which starts at an offset. -/
def mark (kind : Kind) (c : Char) (start : Nat) : Token :=
  ⟨kind, [c], none, ⟨start, start + c.utf8Size⟩⟩

/-- The end of the input, as the one byte behind it. -/
def endOfInput (offset : Nat) : Token :=
  ⟨.endOfInput, [], none, .single offset⟩

/-- What a token shows of itself besides its kind: its value if it has one, otherwise its
characters between quotes, and nothing at the end of the input. -/
def content (token : Token) : List Char :=
  match token.kind, token.value with
  | .endOfInput, _ => "None".toList
  | _, some value => value.text
  | _, none => '\'' :: token.lexeme ++ ['\'']

/-- A token as it is listed. -/
def text (token : Token) : List Char :=
  "Token(".toList ++ token.kind.name.toList ++ ", ".toList ++ token.content ++ ")".toList

end Token

end Calculator
