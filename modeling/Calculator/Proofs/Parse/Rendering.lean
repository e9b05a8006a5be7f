import Calculator.Proofs.Expr.Rendering
import Calculator.Proofs.Parse.Substitution
import Calculator.Proofs.Token.Tiling

/-!
# Written shapes are read back

What a shape is written as is parsed as that shape, in either style and with any blanks
(`parse_rendering`). The induction on the shape goes through `TextDerives`: the text of an operand is
derived from the nonterminal of its slot, so it can stand next to the operator, and nests no deeper
than the operand is high.
-/

namespace Calculator

open Grammar

/-- The tokens of a text derive a shape from a nonterminal, with no more than so many groups inside
one another. -/
def TextDerives (nonterminal : Nonterminal) (limit : Nat) (text : List Char) (shape : Shape) : Prop :=
  ∃ tokens e, Scanner.Lexes text tokens ∧ Derives nonterminal tokens e ∧ e.shape = shape ∧
    NestsWithin limit 0 tokens

/-- A word that is not below zero is written in digits that are read back. -/
theorem Scanner.spells_text (start : Nat) {value : Word} (h : 0 ≤ value.toInt) :
    Spells start value.text
      (.integer value value.text ⟨start, start + Text.byteLength value.text⟩) := by
  have htext : value.text = Text.numeral value.toInt.natAbs := by
    rw [Word.text, Text.signedNumeral, if_neg (Int.not_lt.mpr h)]
  rw [htext]
  refine .number Nat.toDigits_ne_nil ?_ ?_
  · intro c hc
    rw [Text.numeral] at hc
    exact Nat.isDigit_of_mem_toDigits (by decide) (by decide) hc
  · rw [Text.readNumeral_numeral, Word.ofInt?_eq_some_iff]
    exact (Int.natAbs_of_nonneg h).symm

theorem Scanner.lexes_blank {text : List Char} (h : ∀ c ∈ text, Text.isBlank c = true) :
    Lexes text [] :=
  ⟨[], text, rfl, fun _ _ _ => .nil _, h⟩

namespace TextDerives

variable {nonterminal : Nonterminal} {limit : Nat} {text : List Char} {shape : Shape}

/-- The same text, with a weaker nonterminal and more groups allowed. -/
theorem mono {nonterminal' : Nonterminal} {limit' : Nat} (h : TextDerives nonterminal limit text shape)
    (hderives : ∀ tokens e, Derives nonterminal tokens e → Derives nonterminal' tokens e)
    (hle : limit ≤ limit') : TextDerives nonterminal' limit' text shape := by
  obtain ⟨tokens, e, hlexes, he, hshape, hnests⟩ := h
  exact ⟨tokens, e, hlexes, hderives tokens e he, hshape, hnests.of_limit_le hle⟩

/-- A number with blanks around it. -/
theorem number {value : Word} {gap gap' : List Char} (hvalue : 0 ≤ value.toInt)
    (hgap : ∀ c ∈ gap, Text.isBlank c = true) (hgap' : ∀ c ∈ gap', Text.isBlank c = true) :
    TextDerives .factor 0 (gap ++ (value.text ++ gap')) (.number value) := by
  have hcovers : Scanner.Covers 0 (gap ++ (value.text ++ [])) _ :=
    .cons hgap (Scanner.spells_text _ hvalue) (fun _ _ hrest => hrest) fun _ _ _ => .nil _
  refine ⟨_, _, ⟨_, gap', by simp, hcovers, hgap'⟩, .number rfl rfl, rfl, ?_⟩
  exact nestsWithin_cons.mpr ⟨nofun, nestsWithin_nil _ _⟩

/-- Two operands with an operator between them. -/
theorem join {level : Level} {operator : Operator} {left right : List Char} {l r : Shape}
    (hleft : TextDerives (.chain level) limit left l) (hlevel : operator.level = level)
    (hright : TextDerives (.operand level) limit right r) :
    TextDerives (.chain level) limit (left ++ operator.symbol :: right) (.binary l operator r) := by
  obtain ⟨ls, l, hllexes, hl, rfl, hlnests⟩ := hleft
  obtain ⟨rs, r, hrlexes, hr, rfl, hrnests⟩ := hright
  have hmark : Scanner.markKind? operator.symbol = some (.operator operator) := by
    cases operator <;> rfl
  obtain ⟨token, rs', hlexes, hkind, hsame⟩ := hllexes.exists_mark hmark hrlexes
  obtain ⟨r', hr', hrshape⟩ := hr.respan hsame
  refine ⟨_, _, hlexes, hl.join hkind hlevel hr', by rw [Expr.shape_join, hrshape], ?_⟩
  exact (hl.nestsWithin_join hkind limit 0).mpr ⟨hlnests, nestsWithin_of_symbol hsame hrnests⟩

/-- A text in parentheses. -/
theorem group {gap gap' : List Char} (h : TextDerives .expression limit text shape)
    (hgap : ∀ c ∈ gap, Text.isBlank c = true) (hgap' : ∀ c ∈ gap', Text.isBlank c = true) :
    TextDerives .factor (limit + 1) (gap ++ '(' :: (text ++ ')' :: gap')) shape := by
  obtain ⟨tokens, e, hlexes, he, rfl, hnests⟩ := h
  obtain ⟨opening, tokens', closing, after, hwhole, hopening, hclosing, hsame, hafter⟩ :=
    (Scanner.lexes_blank hgap).exists_group hlexes (Scanner.lexes_blank hgap')
  obtain rfl : after = [] := List.map_eq_nil_iff.mp hafter
  obtain ⟨e', he', hshape⟩ := he.respan hsame
  refine ⟨opening :: (tokens' ++ [closing]), _, by simpa [parenthesize] using hwhole,
    .group hopening he' hclosing, by rw [Expr.shape_withSpan, hshape], ?_⟩
  exact (he'.nestsWithin_group hopening hclosing limit).mpr (nestsWithin_of_symbol hsame hnests)

/-- A text that is within the limits is parsed. -/
theorem parse (h : TextDerives .expression depthLimit text shape)
    (hheight : shape.height ≤ depthLimit) : ∃ e, Expr.parse text = .ok e ∧ e.shape = shape := by
  obtain ⟨tokens, e, hlexes, he, rfl, hnests⟩ := h
  rw [Expr.height_shape] at hheight
  exact ⟨e, Expr.parse_eq_ok_iff_lexes.mpr ⟨tokens, hlexes, he, hnests, hheight⟩, rfl⟩

end TextDerives

/-! ## Slots -/

/-- What the text in a slot is derived from. -/
def Slot.nonterminal : Slot → Nonterminal
  | .whole => .expression
  | .operand parent .left => .chain parent.level
  | .operand parent .right => .operand parent.level

section

variable {loose tight : Level} {tokens : List Token} {e : Expr}

/-- A chain can start with a chain that binds as tightly. -/
theorem Grammar.Derives.chain_of_le (h : Derives (.chain tight) tokens e)
    (hle : loose.tightness ≤ tight.tightness) : Derives (.chain loose) tokens e := by
  cases loose with
  | sum => exact h.toExpression
  | product =>
    cases tight with
    | sum => exact absurd hle (by decide)
    | product => exact h

/-- An operand can be a chain that binds more tightly. -/
theorem Grammar.Derives.operand_of_lt (h : Derives (.chain tight) tokens e)
    (hlt : loose.tightness < tight.tightness) : Derives (.operand loose) tokens e := by
  cases loose with
  | sum =>
    cases tight with
    | sum => exact absurd hlt (by decide)
    | product => exact h
  | product => cases tight <;> exact absurd hlt (by decide)

end

/-- An operator that is left without parentheses can stand so in its slot. -/
theorem Style.derives_of_not_groups {style : Style} {slot : Slot} {operator : Operator}
    {tokens : List Token} {e : Expr} (h : style.groups slot operator = false)
    (he : Derives (.chain operator.level) tokens e) : Derives slot.nonterminal tokens e := by
  cases style with
  | everywhere => cases h
  | fewest =>
    cases slot with
    | whole => exact he.toExpression
    | operand parent side =>
      cases side with
      | left => exact he.chain_of_le (Nat.not_lt.mp (of_decide_eq_false h))
      | right => exact he.operand_of_lt (Nat.not_le.mp (of_decide_eq_false h))

/-- A written shape is read back from the nonterminal of its slot. -/
theorem Shape.textDerives {style : Style} {shape : Shape} {slot : Slot} {text : List Char}
    (hshape : shape.NonNegative) (h : Spaced (shape.lexemes style slot) text) :
    TextDerives slot.nonterminal shape.height text shape := by
  induction shape generalizing slot text with
  | number value =>
    cases h with
    | cons hgap others =>
      have hnumber := TextDerives.number hshape hgap others.blank
      exact hnumber.mono (fun _ _ => Derives.ofFactor) (Nat.zero_le _)
  | binary left operator right ihl ihr =>
    have hinside : ∀ {inside : List Char},
        Spaced (left.lexemes style (.operand operator .left) ++
          [operator.symbol] :: right.lexemes style (.operand operator .right)) inside →
        TextDerives (.chain operator.level) (max left.height right.height) inside
          (.binary left operator right) := by
      intro inside hinside
      obtain ⟨ltext, rtext, rfl, hl, hr⟩ := hinside.exists_mark
      have hleft := (ihl hshape.1 hl).mono (fun _ _ => id) (Nat.le_max_left _ right.height)
      have hright := (ihr hshape.2 hr).mono (fun _ _ => id) (Nat.le_max_right left.height _)
      exact hleft.join rfl hright
    rw [Shape.lexemes] at h
    cases hgroups : style.groups slot operator with
    | true =>
      rw [hgroups] at h
      obtain ⟨gap, inside, gap', rfl, hgap, hspaced, hgap'⟩ := Spaced.exists_group h
      have hexpression := (hinside hspaced).mono (fun _ _ => Derives.toExpression) (Nat.le_refl _)
      exact (hexpression.group hgap hgap').mono (fun _ _ => Derives.ofFactor) (Nat.le_refl _)
    | false =>
      rw [hgroups] at h
      exact (hinside h).mono (fun _ _ => Style.derives_of_not_groups hgroups) (Nat.le_succ _)

/-! ## Trees that were parsed -/

/-- A derived shape has its numbers from its tokens. -/
theorem Grammar.Derives.nonNegative {tokens : List Token} {nonterminal : Nonterminal} {e : Expr}
    (h : Derives nonterminal tokens e)
    (hvalues : ∀ token ∈ tokens, ∀ value, token.value = some value → 0 ≤ value.toInt) :
    e.shape.NonNegative := by
  induction h with
  | @number token value _ hvalue => exact hvalues token List.mem_cons_self value hvalue
  | group _ _ _ ih =>
    rw [Expr.shape_withSpan]
    exact ih fun token htoken => hvalues token (by simp [htoken])
  | factor _ ih | term _ ih => exact ih hvalues
  | product _ _ _ _ ihl ihr | sum _ _ _ _ ihl ihr =>
    exact ⟨ihl fun token htoken => hvalues token (by simp [htoken]),
      ihr fun token htoken => hvalues token (by simp [htoken])⟩

/-- No token of a text has a value below zero. -/
theorem Scanner.Lexes.nonNegative {source : List Char} {tokens : List Token} (h : Lexes source tokens) :
    ∀ token ∈ tokens, ∀ value, token.value = some value → 0 ≤ value.toInt := by
  intro token htoken value hvalue
  obtain ⟨left, right, -, hfills⟩ := h.tiles.fills token htoken
  cases hfills with
  | mark => cases hvalue
  | number _ hnumeral =>
    obtain rfl := Option.some.inj hvalue
    rw [hnumeral]
    exact Int.natCast_nonneg _

/-! ## Round trips -/

/-- A text of a written shape is parsed as that shape. -/
theorem Shape.exists_parse {shape : Shape} {style : Style} {text : List Char}
    (hshape : shape.NonNegative) (hheight : shape.height ≤ depthLimit)
    (h : Spaced (shape.lexemes style .whole) text) :
    ∃ e, Expr.parse text = .ok e ∧ e.shape = shape := by
  have hreads : TextDerives .expression shape.height text shape := Shape.textDerives hshape h
  exact (hreads.mono (fun _ _ => id) hheight).parse hheight

/-- A shape within the limits and without numbers below zero is written, in either style and with any
blanks, as a text that is parsed as that shape. So what a text is parsed as can be written anew, with
the fewest parentheses, and is still parsed as the same shape. -/
theorem parse_rendering :
    (∀ (shape : Shape) (style : Style) (text : List Char), shape.NonNegative →
      shape.height ≤ depthLimit → Spaced (shape.lexemes style .whole) text →
        ∃ e, Expr.parse text = .ok e ∧ e.shape = shape) ∧
    ∀ (source : List Char) (e : Expr) (text : List Char), Expr.parse source = .ok e →
      Spaced (e.shape.lexemes .fewest .whole) text →
        ∃ e', Expr.parse text = .ok e' ∧ e'.shape = e.shape := by
  constructor
  · intro shape style text hshape hheight hspaced
    exact Shape.exists_parse hshape hheight hspaced
  · intro source e text hparse hspaced
    obtain ⟨tokens, hlexes, he, -, hheight⟩ := Expr.parse_eq_ok_iff_lexes.mp hparse
    have hshape : e.shape.NonNegative := he.nonNegative hlexes.nonNegative
    rw [← Expr.height_shape] at hheight
    exact Shape.exists_parse hshape hheight hspaced

/-- A product needs no parentheses on the right of a difference, but its own left operand does; and a
text with more of them is rewritten with these only. -/
theorem parse_rendering_product_of_difference :
    ∃ e, Expr.parse "(8)-(((2-1))*3)".toList = .ok e ∧ e.shape.NonNegative ∧
      e.shape.height ≤ depthLimit ∧
      Spaced (e.shape.lexemes .fewest .whole) "8 -(2-1)\u3000*3".toList ∧
      (∃ e', Expr.parse "8 -(2-1)\u3000*3".toList = .ok e' ∧ e'.shape = e.shape) ∧
      ∃ e', Expr.parse (e.shape.lexemes .everywhere .whole).flatten = .ok e' ∧
        e'.shape = e.shape := by
  let one : Expr := .number ⟨1, by decide, by decide⟩ ⟨9, 10⟩
  let two : Expr := .number ⟨2, by decide, by decide⟩ ⟨7, 8⟩
  let three : Expr := .number ⟨3, by decide, by decide⟩ ⟨13, 14⟩
  let eight : Expr := .number ⟨8, by decide, by decide⟩ ⟨0, 3⟩
  let e : Expr := .binary eight .subtract
    (.binary (.binary two .subtract one ⟨5, 12⟩) .multiply three ⟨4, 15⟩) ⟨0, 15⟩
  have hparse : Expr.parse "(8)-(((2-1))*3)".toList = .ok e := by decide +kernel
  have hshape : e.shape.NonNegative := by decide
  have hheight : e.shape.height ≤ depthLimit := by decide
  have hlexemes : e.shape.lexemes .fewest .whole =
      [['8'], ['-'], ['('], ['2'], ['-'], ['1'], [')'], ['*'], ['3']] := by decide +kernel
  have htext : "8 -(2-1)\u3000*3".toList =
      [] ++ (['8'] ++ ([' '] ++ (['-'] ++ ([] ++ (['('] ++ ([] ++ (['2'] ++ ([] ++ (['-'] ++
        ([] ++ (['1'] ++ ([] ++ ([')'] ++ (['\u3000'] ++ (['*'] ++ ([] ++
          (['3'] ++ []))))))))))))))))) := by
    decide +kernel
  have hblank : ∀ c ∈ [' '], Text.isBlank c = true := List.forall_mem_singleton.mpr (by decide)
  have hwide : ∀ c ∈ ['\u3000'], Text.isBlank c = true := List.forall_mem_singleton.mpr (by decide)
  have hspaced : Spaced (e.shape.lexemes .fewest .whole) "8 -(2-1)\u3000*3".toList := by
    rw [hlexemes, htext]
    exact .cons nofun (.cons hblank (.cons nofun (.cons nofun (.cons nofun (.cons nofun
      (.cons nofun (.cons hwide (.cons nofun (.nil nofun)))))))))
  obtain ⟨hrendering, hagain⟩ := parse_rendering
  exact ⟨e, hparse, hshape, hheight, hspaced, hagain _ e _ hparse hspaced,
    hrendering e.shape .everywhere _ hshape hheight (spaced_flatten _)⟩

end Calculator
