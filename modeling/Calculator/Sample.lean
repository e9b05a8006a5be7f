import Calculator.Expr.Evaluation

/-!
# Sample expressions

A fixed list of expressions that shows what the calculator does, each on a line with its value.
-/

namespace Calculator.Sample

/-- The sample expressions. -/
def sources : List String :=
  ["2 + 3", "5 - 1", "4 * 3", "10 / 2", "2 + 3 * 4", "(2 + 3) * 4", "2 * (3 + 4)", "10 - 2 * 3",
   "(10 - 2) * 3", "14 / 2 + 3", "14 / (2 + 3)", "1 + 2 * 3 - 4 / 2"]

/-- The column in which the values start to stand, unless an expression is longer. -/
def width : Nat := 20

/-- A text filled up with blanks at its end to a number of characters. -/
def pad (width : Nat) (text : List Char) : List Char :=
  text ++ List.replicate (width - text.length) ' '

/-- What is shown of a result: the value or the message of the fault. -/
def resultText : Except Fault Value → List Char
  | .ok value => value.text
  | .error fault => "error: ".toList ++ fault.cause.message.toList

/-- An expression with its value or its fault, on one line. -/
def line (source : List Char) : List Char :=
  pad width source ++ " = ".toList ++ resultText (evaluate source)

/-- The heading and the samples, line by line. -/
def listing : List (List Char) :=
  let rule := List.replicate 50 '='
  rule :: "Sample expressions".toList :: rule :: sources.map fun source => line source.toList

end Calculator.Sample
