import Calculator.Proofs.Expr.Shape
import Calculator.Token.Basic

/-!
# The grammar

    expression := term (("+" | "-") term)*
    term       := factor (("*" | "/") factor)*
    factor     := INTEGER | "(" expression ")"

`Derives` says which expression a list of tokens stands for. A repetition is read from the left: a
chain of operands is a single operand, or a chain with one more operator and operand behind it. So
both levels lean to the left. Parentheses make no node, they only widen the span of what they
enclose.

The shape of an expression depends on the kinds and the values of its tokens alone
(`Derives.respan`), not on where they stand.
-/

namespace Calculator.Grammar

/-- What a list of tokens can be read as. -/
inductive Nonterminal where
  | expression
  | term
  | factor
  deriving DecidableEq, Repr

/-- The expression that tokens stand for, read as an expression, a term or a factor. -/
inductive Derives : Nonterminal → List Token → Expr → Prop where
  | number {token : Token} {value : Word} (hkind : token.kind = .integer)
      (hvalue : token.value = some value) : Derives .factor [token] (.number value token.span)
  | group {opening closing : Token} {tokens : List Token} {e : Expr}
      (hopening : opening.kind = .leftParen) (inner : Derives .expression tokens e)
      (hclosing : closing.kind = .rightParen) :
      Derives .factor (opening :: (tokens ++ [closing]))
        (e.withSpan (opening.span.cover closing.span))
  | factor {tokens : List Token} {e : Expr} (only : Derives .factor tokens e) :
      Derives .term tokens e
  | product {ls rs : List Token} {token : Token} {operator : Operator} {l r : Expr}
      (left : Derives .term ls l) (hkind : token.kind = .operator operator)
      (hlevel : operator.level = .product) (right : Derives .factor rs r) :
      Derives .term (ls ++ token :: rs) (.join l operator r)
  | term {tokens : List Token} {e : Expr} (only : Derives .term tokens e) :
      Derives .expression tokens e
  | sum {ls rs : List Token} {token : Token} {operator : Operator} {l r : Expr}
      (left : Derives .expression ls l) (hkind : token.kind = .operator operator)
      (hlevel : operator.level = .sum) (right : Derives .term rs r) :
      Derives .expression (ls ++ token :: rs) (.join l operator r)

/-- The tokens are a sentence, and its reference tree has the given shape. -/
def Sentence (tokens : List Token) (shape : Shape) : Prop :=
  ∃ e, Derives .expression tokens e ∧ e.shape = shape

/-! ## The two levels -/

/-- The chain of operands of a level. -/
def Nonterminal.chain : Level → Nonterminal
  | .sum => .expression
  | .product => .term

/-- The operands of a level. -/
def Nonterminal.operand : Level → Nonterminal
  | .sum => .term
  | .product => .factor

theorem Derives.ofOperand {level : Level} {tokens : List Token} {e : Expr}
    (h : Derives (.operand level) tokens e) : Derives (.chain level) tokens e := by
  cases level with
  | sum => exact .term h
  | product => exact .factor h

theorem Derives.join {level : Level} {ls rs : List Token} {token : Token} {operator : Operator}
    {l r : Expr} (left : Derives (.chain level) ls l) (hkind : token.kind = .operator operator)
    (hlevel : operator.level = level) (right : Derives (.operand level) rs r) :
    Derives (.chain level) (ls ++ token :: rs) (.join l operator r) := by
  cases level with
  | sum => exact .sum left hkind hlevel right
  | product => exact .product left hkind hlevel right

/-- A factor can stand wherever something can be derived. -/
theorem Derives.ofFactor {nonterminal : Nonterminal} {tokens : List Token} {e : Expr}
    (h : Derives .factor tokens e) : Derives nonterminal tokens e := by
  cases nonterminal with
  | factor => exact h
  | term => exact .factor h
  | expression => exact .term (.factor h)

theorem Derives.toExpression {nonterminal : Nonterminal} {tokens : List Token} {e : Expr}
    (h : Derives nonterminal tokens e) : Derives .expression tokens e := by
  cases nonterminal with
  | factor => exact .term (.factor h)
  | term => exact .term h
  | expression => exact h

/-! ## Tokens that say the same -/

/-- What the grammar sees of a token. -/
def symbol (token : Token) : Token.Kind × Option Word := (token.kind, token.value)

theorem kind_eq_of_symbol {a b : Token} (h : symbol a = symbol b) : a.kind = b.kind :=
  congrArg Prod.fst h

theorem exists_join_of_map_symbol {others ls rs : List Token} {token : Token}
    (h : others.map symbol = (ls ++ token :: rs).map symbol) :
    ∃ ls' token' rs', others = ls' ++ token' :: rs' ∧ ls'.map symbol = ls.map symbol ∧
      symbol token' = symbol token ∧ rs'.map symbol = rs.map symbol := by
  rw [List.map_append, List.map_cons] at h
  obtain ⟨ls', rest, rfl, hls, hrest⟩ := List.map_eq_append_iff.mp h
  obtain ⟨token', rs', rfl, ht, hrs⟩ := List.map_eq_cons_iff.mp hrest
  exact ⟨ls', token', rs', rfl, hls, ht, hrs⟩

/-- Tokens that only differ in their spans and lexemes derive expressions of one shape. -/
theorem Derives.respan {nonterminal : Nonterminal} {tokens others : List Token} {e : Expr}
    (h : Derives nonterminal tokens e) (hsame : others.map symbol = tokens.map symbol) :
    ∃ e', Derives nonterminal others e' ∧ e'.shape = e.shape := by
  induction h generalizing others with
  | number hkind hvalue =>
    obtain ⟨other, rfl, hother⟩ := List.map_eq_singleton_iff.mp hsame
    simp only [symbol, Prod.mk.injEq] at hother
    exact ⟨_, .number (hother.1.trans hkind) (hother.2.trans hvalue), rfl⟩
  | group hopening inner hclosing ih =>
    rw [List.map_cons, List.map_append, List.map_eq_cons_iff] at hsame
    obtain ⟨opening, rest, rfl, ho, hrest⟩ := hsame
    obtain ⟨middle, last, rfl, hmiddle, hlast⟩ := List.map_eq_append_iff.mp hrest
    obtain ⟨closing, rfl, hc⟩ := List.map_eq_singleton_iff.mp hlast
    obtain ⟨e', he', hshape⟩ := ih hmiddle
    refine ⟨_, .group ((kind_eq_of_symbol ho).trans hopening) he'
      ((kind_eq_of_symbol hc).trans hclosing), ?_⟩
    rw [Expr.shape_withSpan, Expr.shape_withSpan, hshape]
  | factor _ ih =>
    obtain ⟨e', he', hshape⟩ := ih hsame
    exact ⟨e', .factor he', hshape⟩
  | term _ ih =>
    obtain ⟨e', he', hshape⟩ := ih hsame
    exact ⟨e', .term he', hshape⟩
  | product _ hkind hlevel _ ihl ihr =>
    obtain ⟨ls, token, rs, rfl, hls, ht, hrs⟩ := exists_join_of_map_symbol hsame
    obtain ⟨l, hl, hlshape⟩ := ihl hls
    obtain ⟨r, hr, hrshape⟩ := ihr hrs
    refine ⟨_, .product hl ((kind_eq_of_symbol ht).trans hkind) hlevel hr, ?_⟩
    rw [Expr.shape_join, Expr.shape_join, hlshape, hrshape]
  | sum _ hkind hlevel _ ihl ihr =>
    obtain ⟨ls, token, rs, rfl, hls, ht, hrs⟩ := exists_join_of_map_symbol hsame
    obtain ⟨l, hl, hlshape⟩ := ihl hls
    obtain ⟨r, hr, hrshape⟩ := ihr hrs
    refine ⟨_, .sum hl ((kind_eq_of_symbol ht).trans hkind) hlevel hr, ?_⟩
    rw [Expr.shape_join, Expr.shape_join, hlshape, hrshape]

end Calculator.Grammar
