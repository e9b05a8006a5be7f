import Calculator.Proofs.Grammar.Operands
import Calculator.Proofs.Parse.Exactness
import Calculator.Proofs.Reader.Calls

/-!
# Expressions in succession

Sources can stand one behind the other in a text, with blanks between them. A reader that is asked for one
expression after the other reads them in turn, each as if it stood alone (`answers_in_succession`).

No expression goes on with the start of another one, because what starts an operand continues none. So
every call stops where the next source starts: that is what `StandsAt` says of a reader, and each call
carries it over one source. A call for a complete expression reads just as far. It then looks at the token
behind the expression and refuses it, but the reader has moved on all the same.
-/

namespace Calculator

open Text Grammar

/-! ## Sources in a text -/

/-- A source that is parsed, behind blanks. -/
structure Passage where
  gap : List Char
  source : List Char
  expr : Expr
  gap_blank : ∀ c ∈ gap, isBlank c = true
  parse_eq : Expr.parse source = .ok expr

namespace Passage

/-- The text of a passage. -/
def text (p : Passage) : List Char := p.gap ++ p.source

/-- Passages, one behind the other. -/
def joined (ps : List Passage) : List Char := ps.flatMap text

@[simp] theorem joined_nil : joined [] = [] := rfl

@[simp] theorem joined_cons (p : Passage) (ps : List Passage) :
    joined (p :: ps) = p.text ++ joined ps := List.flatMap_cons

@[simp] theorem joined_append (ps qs : List Passage) : joined (ps ++ qs) = joined ps ++ joined qs :=
  List.flatMap_append

/-- There are blanks between any two neighbours. -/
def Apart (ps : List Passage) : Prop := ∀ p ∈ ps.tail, p.gap ≠ []

theorem Apart.tail {p : Passage} {ps : List Passage} (h : Apart (p :: ps)) : Apart ps :=
  fun q hq => h q (List.mem_of_mem_tail hq)

theorem Apart.of_append {ps qs : List Passage} (h : Apart (ps ++ qs)) : Apart qs := by
  induction ps with
  | nil => exact h
  | cons p ps ih => exact ih h.tail

/-- No number goes on behind a passage. -/
theorem Apart.noDigit {p : Passage} {ps : List Passage} (h : Apart (p :: ps)) :
    Scanner.NoDigit (joined ps) := by
  cases ps with
  | nil => exact nofun
  | cons q ps =>
    obtain ⟨c, rest, hgap⟩ := List.exists_cons_of_ne_nil (h q List.mem_cons_self)
    intro d hd
    have hblank := q.gap_blank c (by simp [hgap])
    rw [joined_cons, text, hgap] at hd
    obtain rfl : c = d := Option.some.inj hd
    exact Scanner.isDigit_eq_false_of_isBlank hblank

/-- The tokens of a passage are a sentence within the limits, with only blanks behind them. -/
theorem exists_tokens (p : Passage) :
    ∃ body blanks tokens, p.source = body ++ blanks ∧ (∀ c ∈ blanks, isBlank c = true) ∧
      Scanner.Covers 0 body tokens ∧ Derives .expression tokens p.expr ∧
      NestsWithin depthLimit 0 tokens ∧ p.expr.height ≤ depthLimit := by
  obtain ⟨tokens, ⟨body, blanks, hsource, hcovers, hblanks⟩, hderives, hnests, hheight⟩ :=
    Expr.parse_eq_ok_iff_lexes.mp p.parse_eq
  exact ⟨body, blanks, tokens, hsource, hblanks, hcovers, hderives, hnests, hheight⟩

end Passage

/-! ## What a scanner finds -/

section

variable {p : Passage} {ps : List Passage} (hapart : Passage.Apart (p :: ps))
include hapart

/-- The first token of a passage is found wherever the passage stands, and it starts an operand. -/
theorem Passage.exists_first (offset : Nat) :
    ∃ token, (Scanner.ofSource p.source).scan.1 = .ok token ∧ token.kind.startsOperand = true ∧
      (⟨offset, joined (p :: ps), false⟩ : Scanner).scan.1 =
        .ok (token.shift (offset + byteLength p.gap)) := by
  obtain ⟨body, blanks, tokens, hsource, hblanks, hcovers, hderives, -, -⟩ := p.exists_tokens
  obtain ⟨token, rest, rfl, hstarts⟩ := Reader.startsOperand_of_derives hderives
  have hno := Scanner.noDigit_of_blank hblanks
  have hmore := Scanner.noDigit_append_of_blank hblanks hapart.noDigit
  obtain ⟨behind, halone⟩ := (hcovers blanks false hno).scan_eq
  obtain ⟨behind', hmoved⟩ :=
    (hcovers.shift (offset + byteLength p.gap) (blanks ++ joined ps) false hmore).scan_eq
  refine ⟨token, ?_, hstarts, ?_⟩
  · rw [Scanner.ofSource, hsource]
    exact congrArg Prod.fst halone
  · rw [joined_cons, text, List.append_assoc, Scanner.scan_append_of_blank p.gap_blank, hsource,
      List.append_assoc]
    exact congrArg Prod.fst hmoved

/-- What stands behind a passage does not go on with it. -/
theorem Passage.exists_next (offset : Nat) :
    ∃ next, (⟨offset, joined ps, false⟩ : Scanner).scan.1 = .ok next ∧
      ∀ level, next.kind.operatorAt? level = none := by
  cases ps with
  | nil => exact ⟨.endOfInput offset, rfl, fun _ => rfl⟩
  | cons q ps =>
    obtain ⟨token, -, hstarts, hscan⟩ := exists_first hapart.tail offset
    refine ⟨_, hscan, fun level => ?_⟩
    show token.kind.operatorAt? level = none
    cases hkind : token.kind with
    | operator operator => simp [hkind, Token.Kind.startsOperand] at hstarts
    | _ => rfl

end

namespace Reader

/-! ## One call -/

/-- A reader stands in front of a text and is in no group. -/
structure StandsAt (offset : Nat) (text : List Char) (r : Reader) : Prop where
  looks : r.At ⟨offset, text, false⟩
  groupDepth_eq : r.groupDepth = 0

section

variable {offset : Nat} {p : Passage} {ps : List Passage} {r : Reader}

theorem StandsAt.current_eq_end (h : StandsAt offset [] r) : r.current = .endOfInput offset := by
  have hscan : (⟨offset, [], false⟩ : Scanner).scan =
      (.ok (.endOfInput offset), ⟨offset, [], false⟩) := rfl
  exact (h.looks.current_eq hscan).1

/-- A reader in front of a passage reads its expression, and stands behind the passage. -/
theorem StandsAt.expression (h : StandsAt offset (Passage.joined (p :: ps)) r)
    (hapart : Passage.Apart (p :: ps)) :
    ∃ r', Reader.expression r = .ok (p.expr.shift (offset + byteLength p.gap)) r' ∧
      StandsAt (offset + byteLength p.text) (Passage.joined ps) r' := by
  obtain ⟨hat, hdepth⟩ := h
  obtain ⟨body, blanks, tokens, hsource, hblanks, hcovers, hderives, hnests, hheight⟩ := p.exists_tokens
  -- the blanks at both ends of the source belong to no token, so the scans pass over them
  have hin : (⟨offset, Passage.joined (p :: ps), false⟩ : Scanner).scan =
      (⟨offset + byteLength p.gap, body ++ (blanks ++ Passage.joined ps), false⟩ : Scanner).scan := by
    rw [Passage.joined_cons, Passage.text, List.append_assoc,
      Scanner.scan_append_of_blank p.gap_blank, hsource, List.append_assoc]
  have hout : (⟨offset + byteLength p.gap + byteLength body, blanks ++ Passage.joined ps, false⟩ :
      Scanner).scan = (⟨offset + byteLength p.text, Passage.joined ps, false⟩ : Scanner).scan := by
    rw [Scanner.scan_append_of_blank hblanks, Passage.text, hsource, byteLength_append,
      byteLength_append, ← Nat.add_assoc, ← Nat.add_assoc]
  have hno := Scanner.noDigit_append_of_blank hblanks hapart.noDigit
  have hreads := hcovers.shift (offset + byteLength p.gap) (blanks ++ Passage.joined ps) false hno
  obtain ⟨next, hnext, hstop⟩ := Passage.exists_next hapart (offset + byteLength p.text)
  obtain ⟨r', hrule, hat', hdepth'⟩ := expression_of_derives (hderives.shift _) hreads
    (hin.symm.trans hat) hdepth ((congrArg Prod.fst hout).trans hnext) hstop
    (nestsWithin_of_symbol (Scanner.map_symbol_shift _ _) hnests) (by rwa [Expr.height_shift])
  exact ⟨r', hrule, hout.symm.trans hat', hdepth'⟩

/-- Whatever is called, the reader then stands behind the passage. -/
theorem StandsAt.call (h : StandsAt offset (Passage.joined (p :: ps)) r)
    (hapart : Passage.Apart (p :: ps)) (call : Call) :
    StandsAt (offset + byteLength p.text) (Passage.joined ps) (behind call.rule r) := by
  obtain ⟨r', hrule, hstands⟩ := h.expression hapart
  rw [behind_rule, behind, hrule]
  exact hstands

theorem StandsAt.answer_expression (h : StandsAt offset (Passage.joined (p :: ps)) r)
    (hapart : Passage.Apart (p :: ps)) :
    answer .expression r = .ok (p.expr.shift (offset + byteLength p.gap)) := by
  obtain ⟨r', hrule, -⟩ := h.expression hapart
  rw [answer, Call.rule, hrule]

/-- The last expression is complete. -/
theorem StandsAt.answer_complete (h : StandsAt offset (Passage.joined [p]) r) :
    answer .complete r = .ok (p.expr.shift (offset + byteLength p.gap)) := by
  obtain ⟨r', hrule, hstands⟩ := h.expression nofun
  have hend : r'.current.kind = .endOfInput := by rw [hstands.current_eq_end]; rfl
  rw [answer, Call.rule, complete_eq, hrule]
  dsimp only
  rw [if_pos hend]

/-- Any other is not: the first token behind it is refused. -/
theorem StandsAt.answer_complete_more {q : Passage}
    (h : StandsAt offset (Passage.joined (p :: q :: ps)) r) (hapart : Passage.Apart (p :: q :: ps)) :
    ∃ token, (Scanner.ofSource q.source).scan.1 = .ok token ∧
      answer .complete r = .error ⟨.trailingInput token.kind token.lexeme,
        token.span.shift (offset + byteLength p.text + byteLength q.gap)⟩ := by
  obtain ⟨r', hrule, hat, -⟩ := h.expression hapart
  obtain ⟨token, htoken, hstarts, hscan⟩ :=
    Passage.exists_first hapart.tail (offset + byteLength p.text)
  obtain ⟨hcurrent, -⟩ := hat.current_eq (Prod.ext hscan rfl)
  have hmore : r'.current.kind ≠ .endOfInput := by
    rw [hcurrent]
    intro hend
    simp [Token.shift] at hend
    simp [hend, Token.Kind.startsOperand] at hstarts
  refine ⟨token, htoken, ?_⟩
  rw [answer, Call.rule, complete_eq, hrule]
  dsimp only
  rw [if_neg hmore, hcurrent]
  rfl

/-- At the end of the input no expression starts. -/
theorem expression_of_end (hend : r.current.kind = .endOfInput) :
    Reader.expression r = .error ⟨.unexpectedEnd, r.current.span⟩ r := by
  have hfactor : ∀ inner, factor inner r = .error ⟨.unexpectedEnd, r.current.span⟩ r := by
    intro inner
    unfold factor
    rw [get_bind, hend]
    rfl
  rw [Reader.expression, get_bind, expressionWithin_eq]
  exact bind_of_error (bind_of_error (hfactor _))

/-- Behind the last passage every call fails, and the reader stays. -/
theorem StandsAt.call_end (h : StandsAt offset [] r) (call : Call) :
    call.rule r = .error ⟨.unexpectedEnd, .single offset⟩ r := by
  have hrule : Reader.expression r = .error ⟨.unexpectedEnd, .single offset⟩ r := by
    rw [expression_of_end (by rw [h.current_eq_end]; rfl), h.current_eq_end]
    rfl
  cases call with
  | expression => exact hrule
  | complete => rw [Call.rule, complete_eq, hrule]

/-! ## Any number of calls -/

/-- So many calls carry a reader over so many passages. -/
theorem StandsAt.afterCalls {before after : List Passage} {calls : List Call}
    (h : StandsAt offset (Passage.joined (before ++ after)) r)
    (hapart : Passage.Apart (before ++ after)) (hlength : calls.length = before.length) :
    StandsAt (offset + byteLength (Passage.joined before)) (Passage.joined after)
      (r.afterCalls calls) := by
  induction before generalizing offset r calls with
  | nil =>
    obtain rfl : calls = [] := List.length_eq_zero_iff.mp hlength
    exact h
  | cons p before ih =>
    obtain ⟨call, calls, rfl⟩ := List.exists_cons_of_length_eq_add_one hlength
    have hstands := ih (h.call hapart call) hapart.tail (Nat.succ.inj hlength)
    rwa [Passage.joined_cons, byteLength_append, ← Nat.add_assoc]

/-- No further calls move a reader that stands at the end. -/
theorem StandsAt.afterCalls_end (h : StandsAt offset [] r) (calls : List Call) :
    r.afterCalls calls = r := by
  induction calls with
  | nil => rfl
  | cons call calls ih =>
    have hstays : behind call.rule r = r := by rw [behind, h.call_end]
    show (behind call.rule r).afterCalls calls = r
    rw [hstays, ih]

end

/-- There is a reader in front of passages. -/
theorem exists_standsAt {passages : List Passage} (hapart : Passage.Apart passages) :
    ∃ first, ofScanner (.ofSource (Passage.joined passages)) = .ok first ∧
      StandsAt 0 (Passage.joined passages) first := by
  cases passages with
  | nil => exact ⟨_, rfl, rfl, rfl⟩
  | cons p ps =>
    obtain ⟨token, -, -, hscan⟩ := Passage.exists_first hapart 0
    generalize token.shift (0 + byteLength p.gap) = looked at hscan
    have hlook : (Scanner.ofSource (Passage.joined (p :: ps))).scan = (.ok looked, _) :=
      Prod.ext hscan rfl
    exact ⟨⟨_, looked, 0, 0, 0⟩, by rw [ofScanner, hlook], hlook, rfl⟩

end Reader

open Reader in
/-- A reader of sources with blanks between them reads one with each call, whatever is called. A call for
an expression gives that of the source in turn, with all places moved by where the source starts. So does
a call for a complete expression if this source is the last one; otherwise it refuses the first token of
the next source, but it leaves the reader as the other call does. Behind the last source nothing is read
any more. -/
theorem answers_in_succession (passages : List Passage) (hapart : Passage.Apart passages) :
    ∃ first, Reader.ofScanner (.ofSource (Passage.joined passages)) = .ok first ∧
      (∀ before p after calls, passages = before ++ p :: after → calls.length = before.length →
        let r := first.afterCalls calls
        let offset := byteLength (Passage.joined before ++ p.gap)
        answer .expression r = .ok (p.expr.shift offset) ∧
        (after = [] → answer .complete r = .ok (p.expr.shift offset)) ∧
        (∀ next others, after = next :: others → ∃ token cause,
          (Scanner.ofSource next.source).scan.1 = .ok token ∧
          answer .complete r = .error ⟨cause, token.span.shift
            (byteLength (Passage.joined (before ++ [p]) ++ next.gap))⟩ ∧
          cause.kind = .grammar ∧
          cause.message = "Unexpected '" ++ String.ofList token.lexeme ++ "' after expression") ∧
        behind complete r = behind expression r) ∧
      ∀ calls call, passages.length ≤ calls.length → ∃ cause,
        answer call (first.afterCalls calls) =
          .error ⟨cause, .single (byteLength (Passage.joined passages))⟩ ∧
        cause.kind = .grammar ∧ cause.message = "Unexpected end of input" := by
  obtain ⟨first, hfirst, hstands⟩ := exists_standsAt hapart
  refine ⟨first, hfirst, ?_, ?_⟩
  · rintro before p after calls rfl hlength r offset
    have hr : StandsAt (0 + byteLength (Passage.joined before)) (Passage.joined (p :: after)) r :=
      hstands.afterCalls hapart hlength
    have hapart' : Passage.Apart (p :: after) := hapart.of_append
    have hoffset : 0 + byteLength (Passage.joined before) + byteLength p.gap = offset := by
      simp [offset]
    refine ⟨hoffset ▸ hr.answer_expression hapart', ?_, ?_, behind_rule .complete r⟩
    · rintro rfl
      exact hoffset ▸ hr.answer_complete
    · rintro next others rfl
      obtain ⟨token, htoken, hanswer⟩ := hr.answer_complete_more hapart'
      refine ⟨token, .trailingInput token.kind token.lexeme, htoken, ?_, rfl, rfl⟩
      rw [hanswer]
      simp [Passage.text, Nat.add_assoc]
  · intro calls call hlength
    refine ⟨.unexpectedEnd, ?_, rfl, rfl⟩
    have hover : (calls.take passages.length).length = passages.length := by
      rw [List.length_take, Nat.min_eq_left hlength]
    rw [← List.append_nil passages] at hstands hapart
    have hend := hstands.afterCalls hapart hover
    rw [Passage.joined_nil] at hend
    have hlate : first.afterCalls calls = first.afterCalls (calls.take passages.length) := by
      rw [← hend.afterCalls_end (calls.drop passages.length)]
      simp only [Reader.afterCalls, ← List.foldl_append, List.take_append_drop]
    rw [hlate, answer, hend.call_end, Nat.zero_add]

/-- A call for a complete sum refuses the parenthesis that comes next. The group is read all the same, and
so is the last number, behind which the input ends. -/
theorem answers_in_succession_three :
    ∃ first cause cause',
      Reader.ofScanner (.ofSource "1+2 \u3000(4)\n7 ".toList) = .ok first ∧
      Reader.answer .complete first = .error ⟨cause, ⟨7, 8⟩⟩ ∧
      cause.message = "Unexpected '(' after expression" ∧
      Reader.answer .expression (first.afterCalls [.complete]) =
        .ok (.number ⟨4, by decide, by decide⟩ ⟨7, 10⟩) ∧
      Reader.answer .complete (first.afterCalls [.complete, .expression]) =
        .ok (.number ⟨7, by decide, by decide⟩ ⟨11, 12⟩) ∧
      Reader.answer .expression (first.afterCalls [.complete, .expression, .complete]) =
        .error ⟨cause', .single 13⟩ ∧
      cause'.message = "Unexpected end of input" := by
  let sum : Expr := .binary (.number ⟨1, by decide, by decide⟩ ⟨0, 1⟩) .add
    (.number ⟨2, by decide, by decide⟩ ⟨2, 3⟩) ⟨0, 3⟩
  let p : Passage := ⟨[], "1+2".toList, sum, nofun, by decide +kernel⟩
  let q : Passage := ⟨" \u3000".toList, "(4)".toList, .number ⟨4, by decide, by decide⟩ ⟨0, 3⟩,
    List.all_eq_true.mp (by decide), by decide +kernel⟩
  let r : Passage := ⟨"\n".toList, "7 ".toList, .number ⟨7, by decide, by decide⟩ ⟨0, 1⟩,
    List.all_eq_true.mp (by decide), by decide +kernel⟩
  have hapart : Passage.Apart [p, q, r] := by
    intro next hnext
    simp only [List.tail_cons, List.mem_cons, List.not_mem_nil, or_false] at hnext
    rcases hnext with rfl | rfl
    · exact List.cons_ne_nil _ _
    · exact List.cons_ne_nil _ _
  obtain ⟨first, hfirst, hcalls, hlater⟩ :=
    answers_in_succession [p, q, r] hapart
  obtain ⟨-, -, hrefused, -⟩ := hcalls [] p [q, r] [] rfl rfl
  obtain ⟨token, cause, htoken, hstrict, -, hmessage⟩ := hrefused q [r] rfl
  obtain ⟨hgroup, -⟩ := hcalls [p] q [r] [.complete] rfl rfl
  obtain ⟨-, hlast, -⟩ := hcalls [p, q] r [] [.complete, .expression] rfl rfl
  obtain ⟨cause', hend, -, hmessage'⟩ := hlater [.complete, .expression, .complete] .expression (by decide)
  obtain rfl : token = .mark .leftParen '(' 0 := (Except.ok.inj htoken).symm
  exact ⟨first, cause, cause', hfirst, hstrict, hmessage, hgroup, hlast rfl, hend, hmessage'⟩

end Calculator
