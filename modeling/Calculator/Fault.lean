import Calculator.Token.Basic

/-!
# Faults

What can be wrong with a source text or with its value. A fault is a cause and the span it is
blamed on; the wording follows from the cause alone. So two faults whose causes are equal read the
same wherever they stand.
-/

namespace Calculator

/-- The kinds of faults that a reader of a report tells apart. -/
inductive Fault.Kind where
  | lexical
  | grammar
  | divisionByZero
  | runtime
  deriving DecidableEq, Repr

/-- Why a text cannot be read or has no value. -/
inductive Cause where
  /-- A character that starts no token. -/
  | unexpectedCharacter (c : Char)
  /-- A number that is no word. -/
  | numberTooLarge (digits : List Char)
  /-- A number token that carries no value. -/
  | numberWithoutValue
  /-- An operator with nothing to its right. -/
  | missingOperand (operator : Operator)
  /-- Parentheses with nothing between them. -/
  | emptyGroup
  /-- More levels than the limit allows. -/
  | tooDeep (limit : Nat)
  /-- The end of the input where an expression has to start. -/
  | unexpectedEnd
  /-- Another token where an expression has to start. -/
  | noExpression (kind : Token.Kind) (lexeme : List Char)
  /-- A group that is not closed. -/
  | unclosedGroup
  /-- A token behind a complete expression. -/
  | trailingInput (kind : Token.Kind) (lexeme : List Char)
  /-- A divisor of zero. -/
  | divisionByZero
  /-- A sum, difference or product that is no word. -/
  | overflow (operator : Operator)
  deriving DecidableEq

namespace Cause

/-- The kind of fault that a cause makes. -/
def kind : Cause → Fault.Kind
  | .unexpectedCharacter _ | .numberTooLarge _ => .lexical
  | .divisionByZero => .divisionByZero
  | .overflow _ => .runtime
  | _ => .grammar

/-- What is said of a cause. -/
def message : Cause → String
  | .unexpectedCharacter c => "Unexpected character: '" ++ c.toString ++ "'"
  | .numberTooLarge digits => "Invalid integer: " ++ String.ofList digits
  | .numberWithoutValue => "Invalid integer"
  | .missingOperand operator => "Expected expression after '" ++ operator.symbol.toString ++ "'"
  | .emptyGroup => "Empty parentheses are not allowed"
  | .tooDeep _ => "Expression nested too deeply"
  | .unexpectedEnd => "Unexpected end of input"
  | .noExpression _ lexeme => "Expected expression, found '" ++ String.ofList lexeme ++ "'"
  | .unclosedGroup => "Expected ')' after expression"
  | .trailingInput _ lexeme => "Unexpected '" ++ String.ofList lexeme ++ "' after expression"
  | .divisionByZero => "Division by zero"
  | .overflow operator => "Integer overflow in '" ++ operator.symbol.toString ++ "'"

/-- The advice on a closing parenthesis that closes nothing. -/
def unmatchedHelp : String :=
  "Found ')' without matching '('. Check for unbalanced parentheses."

/-- The advice where an expression has to start. -/
def expressionHelp : String :=
  "Expected a number or a parenthesized expression here."

/-- The advice that goes with a cause. -/
def help : Cause → Option String
  | .unexpectedCharacter _ | .numberTooLarge _ | .numberWithoutValue | .overflow _ => none
  | .missingOperand operator =>
    match operator.level with
    | .sum => some "Arithmetic operators like '+' and '-' require expressions on both sides."
    | .product => some "Multiplication and division operators require expressions on both sides."
  | .emptyGroup => some "Parentheses must contain an expression. Example: (1 + 2)"
  | .tooDeep limit =>
    some ("Expressions may be at most " ++ String.ofList (Text.numeral limit) ++
      " levels deep; split long chains or nested parentheses.")
  | .unexpectedEnd => some expressionHelp
  | .noExpression .rightParen _ => some unmatchedHelp
  | .noExpression _ _ => some expressionHelp
  | .unclosedGroup =>
    some "Every opening parenthesis '(' must have a matching closing parenthesis ')'."
  | .trailingInput .rightParen _ => some unmatchedHelp
  | .trailingInput _ _ =>
    some ("An expression was already complete here; " ++
      "remove the extra input or join it with an operator.")
  | .divisionByZero => some "The right-hand side of '/' evaluated to 0."

end Cause

/-- A cause with the span that is blamed. -/
structure Fault where
  cause : Cause
  span : Span
  deriving DecidableEq

/-- A fault in words. It can also be put together freely. -/
structure Diagnostic where
  kind : Fault.Kind
  span : Span
  message : String
  help : Option String
  deriving DecidableEq

namespace Diagnostic

/-- A lexical fault in words of one's own. -/
def lexical (span : Span) (message : String) : Diagnostic := ⟨.lexical, span, message, none⟩

/-- A fault of grammar in words of one's own. -/
def grammar (span : Span) (message : String) : Diagnostic := ⟨.grammar, span, message, none⟩

/-- A fault of evaluation in words of one's own. -/
def runtime (span : Span) (message : String) : Diagnostic := ⟨.runtime, span, message, none⟩

/-- The same with other advice. -/
def withHelp (help : String) (diagnostic : Diagnostic) : Diagnostic :=
  { diagnostic with help := some help }

end Diagnostic

/-- A fault in the words of its cause. -/
def Fault.diagnostic (fault : Fault) : Diagnostic :=
  ⟨fault.cause.kind, fault.span, fault.cause.message, fault.cause.help⟩

/-- A division by zero, in its usual words. -/
def Diagnostic.divisionByZero (span : Span) : Diagnostic :=
  Fault.diagnostic ⟨.divisionByZero, span⟩

end Calculator
