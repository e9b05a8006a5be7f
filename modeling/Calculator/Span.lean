import Calculator.Text.Offset

/-!
# Spans

The stretch of a source text that a token, an expression or a fault stands for, as two byte
offsets: where it starts and where it stops. A span need not lie inside any text: the end of the
input is the one byte behind the last.
-/

namespace Calculator

/-- From one byte offset up to another. -/
@[ext] structure Span where
  start : Nat
  stop : Nat
  deriving DecidableEq, Repr

namespace Span

/-- The one byte at an offset. -/
def single (offset : Nat) : Span := ⟨offset, offset + 1⟩

/-- The smallest span around two. -/
def cover (a b : Span) : Span := ⟨min a.start b.start, max a.stop b.stop⟩

/-- A span moved to the right. -/
def shift (offset : Nat) (a : Span) : Span := ⟨offset + a.start, offset + a.stop⟩

/-- The span counted in characters of a text. -/
def chars (source : List Char) (a : Span) : Span :=
  ⟨Text.charOffset source a.start, Text.charOffset source a.stop⟩

end Span

end Calculator
