import Calculator.Proofs.Grammar.Viability
import Calculator.Proofs.Parse.Exactness

/-!
# The earliest fault

Apart from the limits, a text is refused because of the first thing in it that cannot go on. If all
tokens before a lexical fault can go on to a sentence, that fault is reported. Otherwise the first
token that cannot follow those before it is blamed, whatever comes behind it: nothing behind it is
looked at but one item, and that one is never reported.
-/

namespace Calculator

open Grammar

/-- What is said of a token that may not follow the tokens before it: a fault of grammar whose words
and span depend on the token before, on the token itself and on whether a group is open. -/
structure Grammar.Explains (before : List Token) (token : Token) (fault : Fault) : Prop where
  kind_eq : fault.cause.kind = .grammar
  behind_operator : ∀ last operator, before.getLast? = some last → last.kind = .operator operator →
    fault.cause.message = "Expected expression after '" ++ operator.symbol.toString ++ "'" ∧
      fault.span = last.span
  empty_group : ∀ last, before.getLast? = some last → last.kind = .leftParen →
    token.kind = .rightParen →
    fault.cause.message = "Empty parentheses are not allowed" ∧
      fault.span = last.span.cover token.span
  at_end : (∀ last, before.getLast? = some last → last.kind = .leftParen) →
    token.kind = .endOfInput →
    fault.cause.message = "Unexpected end of input" ∧ fault.span = token.span
  no_operand : (∀ last, before.getLast? = some last →
      last.kind = .leftParen ∧ token.kind ≠ .rightParen) → token.kind ≠ .endOfInput →
    fault.cause.message = "Expected expression, found '" ++ String.ofList token.lexeme ++ "'" ∧
      fault.span = token.span
  in_group : ∀ last, before.getLast? = some last → endsOperand last.kind = true →
    0 < unclosed 0 before →
    fault.cause.message = "Expected ')' after expression" ∧
      fault.span = if token.kind = .endOfInput then .single last.span.stop else token.span
  outside : ∀ last, before.getLast? = some last → endsOperand last.kind = true →
    unclosed 0 before = 0 →
    fault.cause.message = "Unexpected '" ++ String.ofList token.lexeme ++ "' after expression" ∧
      fault.span = token.span

/-- A fault is the first thing in a text that cannot go on to a sentence. -/
def EarliestFault (source : List Char) (fault : Fault) : Prop :=
  ∃ tokens last, (Scanner.ofSource source).Streams tokens last ∧
    ((last = .error fault ∧ Viable tokens) ∨
      ¬ ((∃ lexical, last = .error lexical) ∧ Viable tokens) ∧
        ∃ before token behind, tokens ++ last.toOption.toList = before ++ token :: behind ∧
          Viable before ∧ ¬ MayFollow before token ∧
          fault = complaint before.getLast? (0 < unclosed 0 before) token ∧
          Explains before token fault)

namespace Grammar

theorem noOperand_kind_eq (token : Token) : (noOperand token).cause.kind = .grammar := by
  unfold noOperand
  split <;> rfl

theorem complaint_kind_eq (last : Option Token) (inGroup : Prop) [Decidable inGroup]
    (token : Token) : (complaint last inGroup token).cause.kind = .grammar := by
  unfold complaint noContinuation
  split
  · exact noOperand_kind_eq token
  · split
    · rfl
    · split
      · rfl
      · exact noOperand_kind_eq token
    · split <;> rfl

/-- Where an expression has to start, whether at the start of the text or of a group. -/
theorem complaint_of_start {before : List Token} {inGroup : Prop} [Decidable inGroup] {token : Token}
    (h : ∀ last, before.getLast? = some last →
      last.kind = .leftParen ∧ token.kind ≠ .rightParen) :
    complaint before.getLast? inGroup token = noOperand token := by
  unfold complaint
  split
  · rfl
  · next last hlast =>
    obtain ⟨hkind, hnot⟩ := h last hlast
    rw [hkind, if_neg hnot]

theorem explains_complaint (before : List Token) (token : Token) :
    Explains before token (complaint before.getLast? (0 < unclosed 0 before) token) where
  kind_eq := complaint_kind_eq _ _ _
  behind_operator := by
    intro last operator hlast hkind
    have hfault : complaint before.getLast? (0 < unclosed 0 before) token =
        ⟨.missingOperand operator, last.span⟩ := by
      simp [complaint, hlast, hkind]
    rw [hfault]
    exact ⟨rfl, rfl⟩
  empty_group := by
    intro last hlast hkind hclosing
    have hfault : complaint before.getLast? (0 < unclosed 0 before) token =
        ⟨.emptyGroup, last.span.cover token.span⟩ := by
      simp [complaint, hlast, hkind, hclosing]
    rw [hfault]
    exact ⟨rfl, rfl⟩
  at_end := by
    intro h hend
    have hstart : ∀ last, before.getLast? = some last →
        last.kind = .leftParen ∧ token.kind ≠ .rightParen :=
      fun last hlast => ⟨h last hlast, by simp [hend]⟩
    rw [complaint_of_start hstart, noOperand, if_pos hend]
    exact ⟨rfl, rfl⟩
  no_operand := by
    intro hstart hmore
    rw [complaint_of_start hstart, noOperand, if_neg hmore]
    exact ⟨rfl, rfl⟩
  in_group := by
    intro last hlast hends hdepth
    rw [hlast, complaint_of_endsOperand hends, noContinuation, if_pos hdepth]
    exact ⟨rfl, rfl⟩
  outside := by
    intro last hlast hends hdepth
    rw [hlast, complaint_of_endsOperand hends, noContinuation, if_neg (by omega)]
    exact ⟨rfl, rfl⟩

end Grammar

/-- Behind tokens that were read a stream goes on to its last item. -/
theorem Scanner.Reads.exists_streams {source : List Char} {before : List Token} {s : Scanner}
    (h : (ofSource source).Reads before s) :
    ∃ more last, (ofSource source).Streams (before ++ more) last := by
  obtain ⟨more, t, hmore, hlast⟩ := exists_reads s
  exact ⟨more, t.scan.1, (streams_iff (finished_ofSource source)).mpr ⟨t, h.append hmore, rfl, hlast⟩⟩

/-- A text that is refused, and not for its depth, is refused for its earliest fault. -/
theorem parse_earliest_fault {source : List Char} {fault : Fault}
    (h : Expr.parse source = .error fault) (hdeep : ∀ limit, fault.cause ≠ .tooDeep limit) :
    EarliestFault source fault := by
  obtain ⟨before, t, s, hrun, hreads, hrefuses⟩ := Expr.failsFrom_of_parse h
  have hviable : Viable before := viable_iff_run.mpr ⟨t, hrun⟩
  cases hrefuses with
  | tooDeep span => exact absurd rfl (hdeep depthLimit)
  | lexical hscan =>
    have hlast : s.scan.1.isLast = true := by simp [hscan, Item.isLast]
    have hstreams := (Scanner.streams_iff (Scanner.finished_ofSource source)).mpr
      ⟨s, hreads, rfl, hlast⟩
    exact ⟨before, s.scan.1, hstreams, Or.inl ⟨hscan, hviable⟩⟩
  | @grammar token hscan hrefused =>
    have hnot : ¬ MayFollow before token := by rwa [mayFollow_iff_admits hrun]
    have hlast : t.last = before.getLast? := hrun.last_eq.trans (Option.or_none ..)
    have hdepth : t.depth = unclosed 0 before := hrun.depth_eq
    rw [hlast, hdepth]
    by_cases hend : token.kind = .endOfInput
    · have hstreams := Scanner.streams_ok_iff.mpr ⟨s, hreads, hscan, hend⟩
      refine ⟨before, .ok token, hstreams, Or.inr ⟨?_, before, token, [], rfl, hviable, hnot, rfl,
        explains_complaint before token⟩⟩
      rintro ⟨⟨lexical, hlexical⟩, -⟩
      cases hlexical
    · -- what follows the token is streamed, but neither looked at nor blamed
      have htoken : s.Reads [token] s.scan.2 := .single (Prod.ext hscan rfl) hend
      obtain ⟨more, last, hstreams⟩ := (hreads.append htoken).exists_streams
      refine ⟨before ++ [token] ++ more, last, hstreams, Or.inr ⟨?_, before, token,
        more ++ last.toOption.toList, by simp, hviable, hnot, rfl,
        explains_complaint before token⟩⟩
      rintro ⟨-, hthrough⟩
      rw [MayFollow, if_neg hend] at hnot
      exact hnot hthrough.of_append

/-- The `*` is blamed on the `+`, and the character behind it, which starts no token, is not. -/
theorem parse_earliest_fault_of_lexical_behind :
    Expr.parse "1+*$".toList = .error ⟨.missingOperand .add, ⟨1, 2⟩⟩ ∧
      (∀ limit, Cause.missingOperand .add ≠ .tooDeep limit) ∧
      EarliestFault "1+*$".toList ⟨.missingOperand .add, ⟨1, 2⟩⟩ := by
  have hparse : Expr.parse "1+*$".toList = .error ⟨.missingOperand .add, ⟨1, 2⟩⟩ := by
    decide +kernel
  have hdeep : ∀ limit, Cause.missingOperand .add ≠ .tooDeep limit := by
    intro limit h
    cases h
  exact ⟨hparse, hdeep, parse_earliest_fault hparse hdeep⟩

end Calculator
