import Calculator.Proofs.Parse.LexicalFaults
import Calculator.Terminal.Request

/-!
# Three ways to look at a source

A source on the command line can be evaluated, parsed, or taken apart into tokens. Each of these goes one
step further than the one before, and each has its own way through the program: the stream of the scanner,
the reader, and the reader with the evaluation behind it.

The three agree (`modes_agree`). What one of them can do, the ones before it can. What the parse reports,
the evaluation reports too. And where the stream of tokens ends with a fault, the parse has come to the
same fault, or it was refused for one of grammar that lies in front of it.
-/

namespace Calculator.Terminal

/-- Whatever a source starts with, it can be asked about in all three ways. -/
theorem asks_about (source : List Char) :
    Asks ["--".toList, source] (.value source) ∧
      Asks ["--ast".toList, "--".toList, source] (.outline source) ∧
      Asks ["--tokens".toList, "--".toList, source] (.tokens source) :=
  ⟨⟨_, rfl, rfl⟩, ⟨_, rfl, rfl⟩, ⟨_, rfl, rfl⟩⟩

/-! ## What is written -/

theorem Response.ofLines_cons (line : List Char) (lines : List (List Char)) :
    ofLines (line :: lines) = ofLines [line] ++ ofLines lines := by
  rw [Response.ext_iff]
  simp [ofLines]

/-- The tokens of a stream are listed, and then its last item. -/
theorem respondTokens_eq {source : List Char} {tokens : List Token} {last : Item} (name : String)
    (h : (Scanner.ofSource source).Streams tokens last) :
    respondTokens name source =
      .ofLines (tokens.map Token.text) ++ respondItem name source last := by
  rw [respondTokens, h]
  clear h
  induction tokens with
  | nil => exact Response.append_silent _
  | cons token tokens ih =>
    rw [List.map_cons, List.cons_append, List.foldr_cons, ih, List.map_cons, Response.ofLines_cons,
      Response.append_assoc]
    rfl

/-! ## How a run ends -/

namespace Outcome

/-- A run ends well and reports nothing. -/
def Succeeds (outcome : Outcome) : Prop :=
  outcome.exitCode = 0 ∧ outcome.response.notices = []

/-- A run has written some text and fails with one report. -/
def Reports (outcome : Outcome) (written : List Char) (report : Report) : Prop :=
  outcome = ⟨1, written, [.report report]⟩

variable {outcome : Outcome} {written : List Char} {report : Report}

theorem Reports.exitCode_eq (h : outcome.Reports written report) : outcome.exitCode = 1 := by
  rw [h]

/-- A run reports one thing only. -/
theorem Reports.report_eq {written' : List Char} {report' : Report} (h : outcome.Reports written report)
    (h' : outcome.Reports written' report') : report' = report := by
  cases h.symm.trans h'
  rfl

theorem Succeeds.exitCode_ne (h : outcome.Succeeds) : outcome.exitCode ≠ 1 := by
  rw [h.1]
  exact Nat.zero_ne_one

theorem Reports.exitCode_ne (h : outcome.Reports written report) : outcome.exitCode ≠ 0 := by
  rw [h.exitCode_eq]
  exact Nat.one_ne_zero

end Outcome

/-- The report of a fault in a source on the command line. -/
def reportOf (source : List Char) (fault : Fault) : Report :=
  .ofDiagnostic argumentName source fault.diagnostic

/-- A run succeeds with a result, or it writes nothing and reports its fault. -/
def Outcome.Answers {α : Type} (outcome : Outcome) (source : List Char)
    (result : Except Fault α) : Prop :=
  (∃ a, result = .ok a ∧ outcome.Succeeds) ∨
    ∃ fault, result = .error fault ∧ outcome.Reports [] (reportOf source fault)

section

variable {α : Type} {outcome : Outcome} {source : List Char} {result : Except Fault α}

theorem Outcome.Answers.exists_ok (h : outcome.Answers source result) (hzero : outcome.exitCode = 0) :
    ∃ a, result = .ok a := by
  rcases h with ⟨a, hresult, -⟩ | ⟨_, -, hreports⟩
  · exact ⟨a, hresult⟩
  · exact absurd hzero hreports.exitCode_ne

theorem Outcome.Answers.reports {fault : Fault} (h : outcome.Answers source result)
    (hfault : result = .error fault) : outcome.Reports [] (reportOf source fault) := by
  rcases h with ⟨_, hresult, -⟩ | ⟨found, hfound, hreports⟩
  · cases hresult.symm.trans hfault
  · obtain rfl : found = fault := Except.error.inj (hfound.symm.trans hfault)
    exact hreports

end

section

variable (source : List Char) (input : List UInt8)

theorem value_outcome :
    ((Request.value source).outcome input).Answers source (evaluate source) := by
  have houtcome : (Request.value source).outcome input =
      .ofResponse (respondValue argumentName source) := rfl
  rw [houtcome, respondValue]
  cases evaluate source with
  | ok value => exact Or.inl ⟨value, rfl, rfl, rfl⟩
  | error fault => exact Or.inr ⟨fault, rfl, rfl⟩

theorem outline_outcome :
    ((Request.outline source).outcome input).Answers source (Expr.parse source) := by
  have houtcome : (Request.outline source).outcome input =
      .ofResponse (respondOutline argumentName source) := rfl
  rw [houtcome, respondOutline]
  cases Expr.parse source with
  | ok e => exact Or.inl ⟨e, rfl, rfl, rfl⟩
  | error fault => exact Or.inr ⟨fault, rfl, rfl⟩

/-- A list of tokens succeeds if the stream ends with the end of the input. Otherwise the tokens in front
of the fault have been listed. -/
theorem tokens_outcome :
    (∃ tokens last, (Scanner.ofSource source).Streams tokens (.ok last) ∧
        ((Request.tokens source).outcome input).Succeeds) ∨
      ∃ tokens fault, (Scanner.ofSource source).Streams tokens (.error fault) ∧
        ((Request.tokens source).outcome input).Reports
          (tokens.flatMap fun token => token.text ++ ['\n']) (reportOf source fault) := by
  have houtcome : (Request.tokens source).outcome input =
      .ofResponse (respondTokens argumentName source) := rfl
  obtain ⟨tokens, t, hreads, hlast⟩ := Scanner.exists_reads (.ofSource source)
  have hstreams := (Scanner.streams_iff rfl).mpr ⟨t, hreads, rfl, hlast⟩
  rw [houtcome, respondTokens_eq argumentName hstreams]
  cases hitem : t.scan.1 with
  | ok last => exact Or.inl ⟨tokens, last, hitem ▸ hstreams, rfl, rfl⟩
  | error fault =>
    refine Or.inr ⟨tokens, fault, hitem ▸ hstreams, ?_⟩
    have hresponse : .ofLines (tokens.map Token.text) ++ respondItem argumentName source (.error fault) =
        (⟨tokens.flatMap fun token => token.text ++ ['\n'], [.report (reportOf source fault)]⟩ :
          Response) := by
      rw [Response.ext_iff]
      refine ⟨?_, rfl⟩
      simp [Response.ofLines, respondItem, Response.ofFault, List.flatMap_map]
    rw [hresponse]
    rfl

end

/-! ## The three together -/

/-- A source that is not parsed has no value, for the same fault. -/
theorem evaluate_of_parse_error {source : List Char} {fault : Fault}
    (h : Expr.parse source = .error fault) : evaluate source = .error fault := by
  rw [evaluate, h]
  rfl

/-- On the command line, the value of a source, its outline and its tokens are each shown with exit code
0 and no report, or refused with exit code 1 and one report. Nothing else is written then, but for the
tokens in front of the fault. A source that has a value has an outline, and one that has an outline has
tokens to its end. What is reported of the outline is reported of the value. And if a fault of the tokens
is reported, the outline is refused for that fault or for one of grammar that ends in front of it. -/
theorem modes_agree {source : List Char} {asValue asOutline asTokens : List (List Char)}
    (hvalue : Asks asValue (.value source)) (houtline : Asks asOutline (.outline source))
    (htokens : Asks asTokens (.tokens source)) (input input' input'' : List UInt8) :
    let value := run asValue input
    let outline := run asOutline input'
    let tokens := run asTokens input''
    (value.Succeeds ∨ ∃ fault, value.Reports [] (reportOf source fault)) ∧
    (outline.Succeeds ∨ ∃ fault, outline.Reports [] (reportOf source fault) ∧
      value.Reports [] (reportOf source fault)) ∧
    ((∃ read last, (Scanner.ofSource source).Streams read (.ok last) ∧ tokens.Succeeds) ∨
      ∃ read fault found, (Scanner.ofSource source).Streams read (.error fault) ∧
        tokens.Reports (read.flatMap fun token => token.text ++ ['\n']) (reportOf source fault) ∧
        Expr.parse source = .error found ∧ outline.Reports [] (reportOf source found) ∧
        (found = fault ∨ found.cause.kind = .grammar ∧ found.span.stop ≤ fault.span.start)) ∧
    (value.exitCode = 0 → outline.exitCode = 0) ∧
    (outline.exitCode = 0 → tokens.exitCode = 0) := by
  intro value outline tokens
  have hvalue' := value_outcome source input
  have houtline' := outline_outcome source input'
  have htokens' := tokens_outcome source input''
  rw [← hvalue.run_eq input] at hvalue'
  rw [← houtline.run_eq input'] at houtline'
  rw [← htokens.run_eq input''] at htokens'
  refine ⟨?_, ?_, ?_, ?_, ?_⟩
  · rcases hvalue' with ⟨_, -, hsucceeds⟩ | ⟨fault, -, hreports⟩
    · exact Or.inl hsucceeds
    · exact Or.inr ⟨fault, hreports⟩
  · rcases houtline' with ⟨_, -, hsucceeds⟩ | ⟨fault, hparse, hreports⟩
    · exact Or.inl hsucceeds
    · exact Or.inr ⟨fault, hreports, hvalue'.reports (evaluate_of_parse_error hparse)⟩
  · rcases htokens' with hsucceeds | ⟨read, fault, hstreams, hreports⟩
    · exact Or.inl hsucceeds
    · obtain ⟨found, hparse, hforestalls⟩ := Expr.parse_forestalls hstreams
      exact Or.inr ⟨read, fault, found, hstreams, hreports, hparse, houtline'.reports hparse,
        hforestalls⟩
  · intro hzero
    rcases houtline' with ⟨_, -, hsucceeds⟩ | ⟨fault, hparse, -⟩
    · exact hsucceeds.1
    · obtain ⟨_, hok⟩ := hvalue'.exists_ok hzero
      cases hok.symm.trans (evaluate_of_parse_error hparse)
  · intro hzero
    rcases htokens' with ⟨_, _, -, hsucceeds⟩ | ⟨read, fault, hstreams, -⟩
    · exact hsucceeds.1
    · obtain ⟨_, hok⟩ := houtline'.exists_ok hzero
      obtain ⟨found, hparse, -⟩ := Expr.parse_forestalls hstreams
      cases hok.symm.trans hparse

/-- A number that is too large ends the list of tokens, but the outline and the value are refused for the
empty group in front of it. -/
theorem modes_agree_empty_group :
    let source := "()99999999999999999999".toList
    ∃ fault found,
      (run ["--tokens".toList, "--".toList, source] []).Reports
        "Token(LPAREN, '(')\nToken(RPAREN, ')')\n".toList (reportOf source fault) ∧
      (run ["--ast".toList, "--".toList, source] []).Reports [] (reportOf source found) ∧
      (run ["--".toList, source] []).Reports [] (reportOf source found) ∧
      fault.span = ⟨2, 22⟩ ∧ found.span = ⟨0, 2⟩ := by
  intro source
  obtain ⟨hvalue, houtline, htokens⟩ := asks_about source
  have hstreams : (Scanner.ofSource source).Streams
      [.mark .leftParen '(' 0, .mark .rightParen ')' 1]
      (.error ⟨.numberTooLarge "99999999999999999999".toList, ⟨2, 22⟩⟩) :=
    (Scanner.streams_iff rfl).mpr
      ⟨⟨2, "99999999999999999999".toList, false⟩, .cons rfl nofun (.cons rfl nofun (.nil _)), rfl, rfl⟩
  have hparse : Expr.parse source = .error ⟨.emptyGroup, ⟨0, 2⟩⟩ := by decide +kernel
  obtain ⟨-, hboth, hlisted, -⟩ := modes_agree hvalue houtline htokens [] [] []
  rcases hlisted with ⟨_, _, hends, -⟩ | ⟨read, fault, found, hends, hreports, hfound, hrefused, -⟩
  · cases (hends.unique hstreams).2
  · obtain ⟨rfl, hfault⟩ := hends.unique hstreams
    obtain rfl := Except.error.inj (hfound.symm.trans hparse)
    obtain rfl := Except.error.inj hfault
    refine ⟨_, _, hreports, hrefused, ?_, rfl, rfl⟩
    rcases hboth with hsucceeds | ⟨fault, hsame, hvalue'⟩
    · exact absurd hrefused.exitCode_eq hsucceeds.exitCode_ne
    · rwa [← hsame.report_eq hrefused] at hvalue'

end Calculator.Terminal
