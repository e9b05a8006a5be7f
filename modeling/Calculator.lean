import Calculator.Main
import Calculator.Proofs.Grammar.Standing
import Calculator.Proofs.Grammar.Unambiguity
import Calculator.Proofs.Grammar.Viability
import Calculator.Proofs.Reader.Steps
import Calculator.Proofs.Reader.Soundness
import Calculator.Proofs.Reader.Completeness
import Calculator.Proofs.Reader.Simulation
import Calculator.Proofs.Reader.History
import Calculator.Proofs.Reader.Calls
import Calculator.Proofs.Reader.Levels
import Calculator.Proofs.Parse.Exactness
import Calculator.Proofs.Parse.EarliestFault
import Calculator.Proofs.Binary64.Arithmetic
import Calculator.Proofs.Quotient.Rounded
import Calculator.Proofs.Quotient.Exactness
import Calculator.Proofs.Token.Pieces
import Calculator.Proofs.Grammar.Context
import Calculator.Proofs.Parse.Substitution
import Calculator.Proofs.Evaluation.Overflow
import Calculator.Proofs.Evaluation.FirstFailure
import Calculator.Proofs.Token.Tiling
import Calculator.Proofs.Token.Offence
import Calculator.Proofs.Token.Concatenation
import Calculator.Proofs.Token.Interleaving
import Calculator.Proofs.Token.Slices
import Calculator.Proofs.Guarded.Evaluation
import Calculator.Proofs.Guarded.Reader
import Calculator.Proofs.Guarded.Assertions
import Calculator.Proofs.Grammar.Operands
import Calculator.Proofs.Parse.Spans
import Calculator.Proofs.Parse.Likeness
import Calculator.Proofs.Parse.Spacing
import Calculator.Proofs.Parse.FaultPlaces
import Calculator.Proofs.Parse.Resumption
import Calculator.Proofs.Parse.Succession
import Calculator.Proofs.Parse.LexicalFaults
import Calculator.Proofs.Terminal.Modes
import Calculator.Proofs.Terminal.Transcript
import Calculator.Proofs.Terminal.Agreement
import Calculator.Proofs.Terminal.Arguments
import Calculator.Proofs.Terminal.CommandLine
import Calculator.Proofs.Terminal.Selection
import Calculator.Proofs.Text.Cut
import Calculator.Proofs.Expr.Rendering
import Calculator.Proofs.Parse.Rendering
import Calculator.Proofs.Quotient.SingleRounding
import Calculator.Proofs.Parse.LongestSentence
import Calculator.Proofs.Evaluation.Shape
import Calculator.Proofs.Parse.Folding
import Calculator.Proofs.Grammar.Overstep
import Calculator.Proofs.Reader.Refusal
import Calculator.Proofs.Reader.DepthBlame
import Calculator.Proofs.Parse.DepthBlame
import Calculator.Proofs.Quotient.Accuracy
import Calculator.Proofs.Quotient.Monotonicity
import Calculator.Proofs.Text.Numeral
import Calculator.Proofs.Expr.Outline
import Calculator.Proofs.Text.Decimal
import Calculator.Proofs.Binary64.Decimal
import Calculator.Proofs.Value.Text
