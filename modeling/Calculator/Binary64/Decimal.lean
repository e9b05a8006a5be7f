import Calculator.Binary64.Rounding
import Calculator.Text.Numeral

/-!
# Decimal text of binary64 numbers

A finite number is written positionally, never with an exponent. There are two ways to choose its digits.

With a fixed number of decimals (`fixedText`), the number is rounded to its last decimal, a half going to
the even digit. All digits before the point are exact.

The shortest text (`shortestText`) has as few digits as read back as the same number, then zeros up to the
ones if need be. Grids of decimals are tried from the coarsest on. On the first that has a point close
enough, the two neighbours of the number are tried. If both read back, the nearer is taken, and half way
the larger. The steps of the first grid are larger than any finite number, and the search ends at the
latest on the grid with 1074 decimals, where every number is a point.

Either way there is a point only in front of decimals, and what is not finite is a word.
-/

namespace Calculator.Binary64

/-- How many units of a decimal place make one. -/
def unitsPerOne (places : Nat) : Nat := Nat.pow 10 places

/-- So many units of a decimal place, written with as many decimals. -/
def positional (places digits : Nat) : List Char :=
  if places = 0 then Text.numeral digits
  else
    Text.numeral (digits / unitsPerOne places) ++
      '.' :: Text.padDigits places (Text.numeral (digits % unitsPerOne places))

/-- The text of a value whose magnitude is written in a given way. -/
def textWith (magnitudeText : Nat → List Char) : Binary64 → List Char
  | .nan => "NaN".toList
  | .infinite negative => if negative then "-inf".toList else "inf".toList
  | .finite negative rank =>
    if negative then '-' :: magnitudeText rank else magnitudeText rank

/-! ## A fixed number of decimals -/

/-- The magnitude of a rank in units of a decimal place, rounded. -/
def unitsNearest (rank places : Nat) : Nat :=
  roundHalfEven (quanta rank * unitsPerOne places) quantaPerOne

/-- The text of a value with so many decimals. -/
def fixedText (places : Nat) : Binary64 → List Char :=
  textWith fun rank => positional places (unitsNearest rank places)

/-! ## As few digits as read back -/

/-- The rank of the magnitude nearest to `digits` units of a decimal place. -/
def readRank (places digits : Nat) : Nat :=
  nearestRank (digits * quantaPerOne) (unitsPerOne places)

/-- A grid of decimals. Its points are the multiples of so many units of a decimal place. -/
structure Grid where
  places : Nat
  step : Nat
  step_pos : 0 < step

namespace Grid

/-- The grids in order. Each has ten times as many points as the one before it, and the one with the
index 309 has the whole numbers. -/
def ofIndex (index : Nat) : Grid :=
  ⟨index - 309, unitsPerOne (309 - index), Nat.pow_pos (by decide)⟩

/-- The last point up to the magnitude of a rank. -/
def below (grid : Grid) (rank : Nat) : Nat :=
  quanta rank * unitsPerOne grid.places / (grid.step * quantaPerOne) * grid.step

/-- Whether a magnitude lies in the lower half between its neighbours. -/
def nearerBelow (grid : Grid) (rank : Nat) : Bool :=
  2 * (quanta rank * unitsPerOne grid.places % (grid.step * quantaPerOne)) <
    grid.step * quantaPerOne

/-- The point that reads back as a magnitude, if there is one: of its two neighbours the nearer that
does. -/
def pointReadingBack? (grid : Grid) (rank : Nat) : Option Nat :=
  let below := grid.below rank
  let above := below + grid.step
  if readRank grid.places below = rank then
    if readRank grid.places above = rank ∧ grid.nearerBelow rank = false then some above
    else some below
  else if readRank grid.places above = rank then some above
  else none

end Grid

/-- The first grid from an index on, of `left` grids tried, with a point that reads back: its decimal
place and the point. After them the next grid with the magnitude rounded down. -/
def shortestFrom (rank index : Nat) : Nat → Nat × Nat
  | 0 => ((Grid.ofIndex index).places, (Grid.ofIndex index).below rank)
  | left + 1 =>
    (((Grid.ofIndex index).pointReadingBack? rank).map ((Grid.ofIndex index).places, ·)).getD
      (shortestFrom rank (index + 1) left)

/-- The point of the coarsest grid that reads back as a magnitude, behind its decimal place. -/
def shortest (rank : Nat) : Nat × Nat := shortestFrom rank 0 (309 + 1074)

/-- The shortest text of a value that reads back. -/
def shortestText : Binary64 → List Char :=
  textWith fun rank => positional (shortest rank).1 (shortest rank).2

end Calculator.Binary64
