import Calculator.Expr.Basic
import Calculator.Token.Scanner

/-!
# Reading expressions

A reader takes the tokens of a scanner and builds expressions from them, by the grammar

    expression := term (("+" | "-") term)*
    term       := factor (("*" | "/") factor)*
    factor     := INTEGER | "(" expression ")"

It always holds one token that it has looked at and not yet taken. Both upper rules are the one rule
`chain` at two levels: operands with operators of that level between them, joined from the left.

## The limits

An expression has at most `depthLimit` levels, and so have parentheses within each other. The
height of an expression is checked when its operands are joined, the parentheses when a group opens.

## Faults

A rule that fails leaves the reader where the fault was found, with the groups that it was in still
counted as open. Reading can go on from there.

## Why it ends

No fuel is given. A chain ends because each join raises the height, which the limit bounds; nested
groups end because each one uses up one of the levels that are left. So the depth limit alone bounds
the recursion, whatever the scanner answers.

The levels are nothing besides the groups that are open. Both are counted at every group, so that a
group finds no level left exactly where `depthLimit` groups are open. `Reader.expression_eq` says this
of `Reader.expression` once and for all: it is the recursion in which a group compares `groupDepth` with
`depthLimit`.
-/

namespace Calculator

/-- The most levels that an expression may have, and the most parentheses around one place. -/
def depthLimit : Nat := 256

/-- A reader between two tokens. -/
structure Reader where
  scanner : Scanner
  /-- The token that is looked at. -/
  current : Token
  /-- The end of the token taken last. -/
  previousEnd : Nat
  /-- The height of the expression read last. -/
  height : Nat
  /-- The groups that are open. -/
  groupDepth : Nat
  deriving DecidableEq

/-- A part of reading: it moves the reader on and gives a result or a fault. -/
abbrev Rule := EStateM Fault Reader

/-- Whether an expression can start with a token. -/
def Token.Kind.startsOperand : Token.Kind → Bool
  | .integer | .leftParen => true
  | _ => false

/-- The operator of a token, if it binds at a level. -/
def Token.Kind.operatorAt? (level : Level) : Token.Kind → Option Operator
  | .operator op => if op.level = level then some op else none
  | _ => none

namespace Reader

/-- A reader of the tokens of a scanner, which has looked at the first of them. -/
def ofScanner (scanner : Scanner) : Except Fault Reader :=
  match scanner.scan with
  | (.ok token, behind) => .ok ⟨behind, token, 0, 0, 0⟩
  | (.error fault, _) => .error fault

/-! ## Single tokens -/

/-- Takes the token that is looked at. If what follows it is no token, it is not taken. -/
def advance : Rule Token := fun r =>
  match r.scanner.scan with
  | (.ok next, behind) =>
    .ok r.current { r with scanner := behind, current := next, previousEnd := r.current.span.stop }
  | (.error fault, behind) => .error fault { r with scanner := behind }

/-- Fails with a cause that is blamed on a span. -/
def blame {α : Type} (cause : Cause) (span : Span) : Rule α := throw ⟨cause, span⟩

/-- Records the height of an expression that has been read. -/
def record (height : Nat) (e : Expr) : Rule Expr := do
  modify ({ · with height })
  return e

/-- Where a missing token is reported: at the token found instead, or right behind the last token if
the input has ended. -/
def missingSpan (r : Reader) : Span :=
  if r.current.kind = .endOfInput then .single r.previousEnd else r.current.span

/-! ## Rules -/

/-- Demands an expression behind an operator, and blames the operator if there is none. -/
def requireOperand (operator : Operator) (token : Token) : Rule Unit := do
  unless (← get).current.kind.startsOperand do
    blame (.missingOperand operator) token.span

/-- Joins operands of `operand` to `left` as long as operators of `level` follow. -/
def chainFrom (level : Level) (operand : Rule Expr) (left : Expr) (height : Nat) : Rule Expr := do
  match (← get).current.kind.operatorAt? level with
  | none => record height left
  | some operator =>
    let token ← advance
    requireOperand operator token
    let right ← operand
    let joined := max height (← get).height + 1
    if _within : joined ≤ depthLimit then
      chainFrom level operand (.join left operator right) joined
    else
      blame (.tooDeep depthLimit) token.span
termination_by depthLimit - height
decreasing_by omega

/-- One operand, and those that follow with operators of `level` between them. -/
def chain (level : Level) (operand : Rule Expr) : Rule Expr := do
  let left ← operand
  chainFrom level operand left (← get).height

/-- Reads a number. -/
def number : Rule Expr := do
  let token ← advance
  match token.value with
  | none => blame .numberWithoutValue token.span
  | some value => record 1 (.number value token.span)

/-- Reads what stands between an opening parenthesis and its partner, and the partner. -/
def groupBody (inner : Rule Expr) (opening : Token) : Rule Expr := do
  if (← get).current.kind = .rightParen then
    blame .emptyGroup (opening.span.cover (← get).current.span)
  modify fun r => { r with groupDepth := r.groupDepth + 1 }
  let e ← inner
  modify fun r => { r with groupDepth := r.groupDepth - 1 }
  if (← get).current.kind = .rightParen then
    let closing ← advance
    return e.withSpan (opening.span.cover closing.span)
  else
    blame .unclosedGroup (← get).missingSpan

/-- Reads a group, if there is a rule for what stands in it. -/
def group (inner : Option (Rule Expr)) : Rule Expr := do
  let opening ← advance
  match inner with
  | none => blame (.tooDeep depthLimit) opening.span
  | some inner => groupBody inner opening

/-- Reads a number or a group. -/
def factor (inner : Option (Rule Expr)) : Rule Expr := do
  let token := (← get).current
  match token.kind with
  | .integer => number
  | .leftParen => group inner
  | .endOfInput => blame .unexpectedEnd token.span
  | kind => blame (.noExpression kind token.lexeme) token.span

/-- Reads an expression in which groups may nest up to so many levels. From a reader on that has as many
levels left as groups may still be opened, they run out exactly where `depthLimit` groups are open
(`expression_eq`). -/
def expressionWithin : Nat → Rule Expr
  | 0 => chain .sum (chain .product (factor none))
  | levels + 1 => chain .sum (chain .product (factor (some (expressionWithin levels))))

/-- Reads an expression and leaves what follows it. -/
def expression : Rule Expr := do
  expressionWithin (depthLimit - (← get).groupDepth)

/-- Reads an expression with which the input has to end. -/
def complete : Rule Expr := do
  let e ← expression
  let next := (← get).current
  if next.kind = .endOfInput then
    return e
  else
    blame (.trailingInput next.kind next.lexeme) next.span

end Reader

/-- The expression that a source text stands for. -/
def Expr.parse (source : List Char) : Except Fault Expr := do
  let reader ← Reader.ofScanner (.ofSource source)
  match Reader.complete reader with
  | .ok e _ => .ok e
  | .error fault _ => .error fault

end Calculator
