import Calculator.Proofs.Expr.Shape
import Calculator.Text.Blank

/-!
# Shapes as texts

A shape is written as a list of lexemes (`Shape.lexemes`), and these as a text with any blanks around
them (`Spaced`). Where parentheses stand is a matter of style: around every operator, or around those
only that would otherwise lose an operand to their neighbour.
-/

namespace Calculator

/-- Where an expression stands: on its own, or as an operand of an operator. -/
inductive Slot where
  | whole
  | operand (parent : Operator) (side : Side)
  deriving DecidableEq, Repr

/-- How many parentheses are written. -/
inductive Style where
  | everywhere
  | fewest
  deriving DecidableEq, Repr

/-- How tightly the operators of a level bind. -/
def Level.tightness : Level → Nat
  | .sum => 0
  | .product => 1

/-- Whether an operator in some slot is put in parentheses. To save some, a left operand has them only
if it binds less tightly than the operator it belongs to, and a right one if it binds less or as
tightly. -/
def Style.groups : Style → Slot → Operator → Bool
  | .everywhere, _, _ => true
  | .fewest, .whole, _ => false
  | .fewest, .operand parent .left, operator =>
    operator.level.tightness < parent.level.tightness
  | .fewest, .operand parent .right, operator =>
    operator.level.tightness ≤ parent.level.tightness

/-- Lexemes in a pair of parentheses. -/
def groupLexemes (lexemes : List (List Char)) : List (List Char) :=
  ['('] :: (lexemes ++ [[')']])

namespace Shape

/-- The lexemes of a shape in some slot. -/
def lexemes (style : Style) : Slot → Shape → List (List Char)
  | _, .number value => [value.text]
  | slot, .binary left operator right =>
    let inside := left.lexemes style (.operand operator .left) ++
      [operator.symbol] :: right.lexemes style (.operand operator .right)
    if style.groups slot operator then groupLexemes inside else inside

/-- No number in the shape is below zero. -/
def NonNegative : Shape → Prop
  | .number value => 0 ≤ value.toInt
  | .binary left _ right => left.NonNegative ∧ right.NonNegative

instance decidableNonNegative : (shape : Shape) → Decidable shape.NonNegative
  | .number value => inferInstanceAs (Decidable (0 ≤ value.toInt))
  | .binary left _ right =>
    have := decidableNonNegative left
    have := decidableNonNegative right
    inferInstanceAs (Decidable (left.NonNegative ∧ right.NonNegative))

end Shape

/-- A text consists of lexemes, with any blanks before, between and behind them. -/
inductive Spaced : List (List Char) → List Char → Prop where
  | nil {gap : List Char} (hgap : ∀ c ∈ gap, Text.isBlank c = true) : Spaced [] gap
  | cons {gap lexeme text : List Char} {lexemes : List (List Char)}
      (hgap : ∀ c ∈ gap, Text.isBlank c = true) (others : Spaced lexemes text) :
      Spaced (lexeme :: lexemes) (gap ++ (lexeme ++ text))

theorem Spaced.blank {text : List Char} (h : Spaced [] text) : ∀ c ∈ text, Text.isBlank c = true := by
  cases h with
  | nil hgap => exact hgap

/-- No blanks at all are needed. -/
theorem spaced_flatten (lexemes : List (List Char)) : Spaced lexemes lexemes.flatten := by
  induction lexemes with
  | nil => exact .nil nofun
  | cons lexeme lexemes ih =>
    have hfirst : Spaced (lexeme :: lexemes) ([] ++ (lexeme ++ lexemes.flatten)) := .cons nofun ih
    exact hfirst

/-- A lexeme of one character cuts the text around it. -/
theorem Spaced.exists_mark {before after : List (List Char)} {c : Char} {text : List Char}
    (h : Spaced (before ++ [c] :: after) text) :
    ∃ left right, text = left ++ c :: right ∧ Spaced before left ∧ Spaced after right := by
  induction before generalizing text with
  | nil =>
    cases h with
    | @cons gap _ right _ hgap others => exact ⟨gap, right, rfl, .nil hgap, others⟩
  | cons lexeme before ih =>
    cases h with
    | @cons gap _ _ _ hgap others =>
      obtain ⟨left, right, rfl, hleft, hright⟩ := ih others
      exact ⟨gap ++ (lexeme ++ left), right, by simp, .cons hgap hleft, hright⟩

/-- A text of lexemes in parentheses is a text of these lexemes, in parentheses. -/
theorem Spaced.exists_group {lexemes : List (List Char)} {text : List Char}
    (h : Spaced (groupLexemes lexemes) text) :
    ∃ left inside right, text = left ++ '(' :: (inside ++ ')' :: right) ∧
      (∀ c ∈ left, Text.isBlank c = true) ∧ Spaced lexemes inside ∧
      ∀ c ∈ right, Text.isBlank c = true := by
  have hopening : Spaced ([] ++ ['('] :: (lexemes ++ [[')']])) text := h
  obtain ⟨left, rest, rfl, hleft, hrest⟩ := hopening.exists_mark
  obtain ⟨inside, right, rfl, hinside, hright⟩ := hrest.exists_mark
  exact ⟨left, inside, right, rfl, hleft.blank, hinside, hright.blank⟩

end Calculator
