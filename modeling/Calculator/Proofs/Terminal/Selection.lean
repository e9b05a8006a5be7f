import Calculator.Proofs.Terminal.CommandLine
import Calculator.Proofs.Terminal.Modes

/-!
# Which mode is selected

A command line selects one of five modes. The samples come before a session, and a session before the
outline, the tokens or the value of a source. This is told here by the texts on the command line: which flags
are among them, and which of them are sources.

What the mode does not look at does not matter (`mode_selection`). The answer of each mode is a response
without the command line in it, but for the source, and only that of a session has the input in it. So any two
runs in one mode agree, whatever else stands on their command lines. And as a mode is selected without an
order, the arguments in front of the separator can change places.
-/

namespace Calculator.Terminal

section

variable (arguments : List (List Char))

/-- What is asked of a source. -/
def requestFor (source : List Char) : Request :=
  if Gives arguments .ast then .outline source
  else if Gives arguments .tokens then .tokens source
  else .value source

/-- The response to a source. -/
def responseTo (source : List Char) : Response :=
  if Gives arguments .ast then respondOutline argumentName source
  else if Gives arguments .tokens then respondTokens argumentName source
  else respondValue argumentName source

theorem ofOptions_told :
    Request.ofOptions (told arguments) =
      if Gives arguments .samples then .samples
      else if Gives arguments .interactive then .session
      else ((sources arguments).head?.map (requestFor arguments)).getD .session := by
  simp only [Request.ofOptions, told, decide_eq_true_eq]
  cases (sources arguments).head? <;> rfl

end

namespace WellFormed

variable {arguments : List (List Char)} (h : WellFormed arguments)

include h

theorem asks : Asks arguments (Request.ofOptions (told arguments)) :=
  ⟨told arguments, ofTexts_eq_ok_iff.mpr ⟨h, rfl⟩, rfl⟩

theorem asks_samples (hsamples : Gives arguments .samples) : Asks arguments .samples := by
  have hasks := h.asks
  rwa [ofOptions_told, if_pos hsamples] at hasks

theorem asks_session (hsamples : ¬ Gives arguments .samples)
    (hsession : Gives arguments .interactive ∨ sources arguments = []) : Asks arguments .session := by
  have hasks := h.asks
  rw [ofOptions_told, if_neg hsamples] at hasks
  by_cases hinteractive : Gives arguments .interactive
  · rwa [if_pos hinteractive] at hasks
  · rwa [if_neg hinteractive, hsession.resolve_left hinteractive] at hasks

theorem asks_source (hsamples : ¬ Gives arguments .samples)
    (hinteractive : ¬ Gives arguments .interactive) {source : List Char}
    (hsource : source ∈ sources arguments) : Asks arguments (requestFor arguments source) := by
  have hasks := h.asks
  have hsome : (sources arguments).head? = some source := by
    rw [← h.toReadable.toList_source_told] at hsource
    exact Option.mem_toList.mp hsource
  rwa [ofOptions_told, if_neg hsamples, if_neg hinteractive, hsome] at hasks

end WellFormed

theorem Outcome.Answers.ends {α : Type} {outcome : Outcome} {source : List Char}
    {result : Except Fault α} (h : outcome.Answers source result) :
    outcome.Succeeds ∨ ∃ written report, outcome.Reports written report := by
  rcases h with ⟨_, -, hsucceeds⟩ | ⟨_, -, hreports⟩
  · exact Or.inl hsucceeds
  · exact Or.inr ⟨_, _, hreports⟩

/-- A source is answered without a look at the input, and with exit code 1 if there is a report. -/
theorem requestFor_outcome (arguments : List (List Char)) (source : List Char) :
    ∃ outcome : Outcome, (∀ input, (requestFor arguments source).outcome input = outcome) ∧
      outcome.response = responseTo arguments source ∧
      (outcome.Succeeds ∨ ∃ written report, outcome.Reports written report) := by
  unfold requestFor responseTo
  split
  · exact ⟨_, fun _ => rfl, rfl, (outline_outcome source []).ends⟩
  split
  · refine ⟨_, fun _ => rfl, rfl, ?_⟩
    rcases tokens_outcome source [] with ⟨_, _, -, hsucceeds⟩ | ⟨_, _, -, hreports⟩
    · exact Or.inl hsucceeds
    · exact Or.inr ⟨_, _, hreports⟩
  · exact ⟨_, fun _ => rfl, rfl, (value_outcome source []).ends⟩

/-- A command line that asks for no help. If it is not well formed, the exit code is 2 and nothing is
written. If it is, the samples come first: with their flag they are all there is, whatever the input and the
other arguments are. Without that flag, the flag for a session or the lack of a source gives the session on the
input with exit code 0, whatever the source and the other flags are. In any other case there is one outcome
for all inputs: the outline of the source with its flag, its tokens with theirs, and its value with neither,
where the exit code is 0 if there is nothing to report and 1 if there is a report. Well formed or not, the
arguments in front of the separator can stand in any order. -/
theorem mode_selection {arguments : List (List Char)} (hhelp : ¬ AsksHelp arguments) :
    (¬ WellFormed arguments → ∀ input, run arguments input = ⟨2, .silent⟩) ∧
    (WellFormed arguments →
      (Gives arguments .samples → ∀ input, run arguments input = ⟨0, respondSamples⟩) ∧
      (¬ Gives arguments .samples → (Gives arguments .interactive ∨ sources arguments = []) →
        ∀ input, run arguments input = ⟨0, session input⟩) ∧
      (¬ Gives arguments .samples → ¬ Gives arguments .interactive →
        ∀ source ∈ sources arguments, ∃ outcome : Outcome,
          (∀ input, run arguments input = outcome) ∧
          outcome.response = responseTo arguments source ∧
          (outcome.Succeeds ∨ ∃ written report, outcome.Reports written report))) ∧
    ∀ before before' rest, arguments = before ++ rest → separator ∉ before → before.Perm before' →
      ∀ input, run (before' ++ rest) input = run arguments input := by
  refine ⟨fun hwell input => ?_, fun hwell => ⟨fun hsamples input => ?_, ?_, ?_⟩, ?_⟩
  · rw [run, ofTexts_eq_usage hwell hhelp]
    rfl
  · exact (hwell.asks_samples hsamples).run_eq input
  · intro hsamples hsession input
    exact (hwell.asks_session hsamples hsession).run_eq input
  · intro hsamples hinteractive source hsource
    have hasks := hwell.asks_source hsamples hinteractive hsource
    obtain ⟨outcome, houtcome, hresponse, hends⟩ := requestFor_outcome arguments source
    exact ⟨outcome, fun input => (hasks.run_eq input).trans (houtcome input), hresponse, hends⟩
  · rintro before before' rest rfl hsep hperm input
    rw [run, run, (reorders_append hsep hperm rest).ofTexts_eq hhelp]

/-- A list of tokens needs no source beside the samples, and those come before a session. A lone dash is a
source, and with the flag for a session it is not looked at, wherever the flag stands. Behind the separator the
flag for the samples is a source, which has two tokens and a fault. And an outline excludes the tokens. -/
theorem mode_selection_separated :
    (∀ input, run ["--tokens".toList, "--samples".toList, "-i".toList] input = ⟨0, respondSamples⟩) ∧
    (∀ input, run ["-".toList, "--ast".toList, "--interactive".toList] input = ⟨0, session input⟩ ∧
      run ["--interactive".toList, "-".toList, "--ast".toList] input = ⟨0, session input⟩) ∧
    (∃ outcome : Outcome,
      (∀ input, run ["--tokens".toList, "--".toList, "--samples".toList] input = outcome) ∧
      outcome.response = respondTokens "<expr>" "--samples".toList ∧ outcome.exitCode = 1) ∧
    ∀ input, run ["--ast".toList, "1".toList, "--tokens".toList] input = ⟨2, .silent⟩ := by
  refine ⟨?_, ?_, ?_, ?_⟩
  · obtain ⟨-, hwell, -⟩ := mode_selection
      (show ¬ AsksHelp ["--tokens".toList, "--samples".toList, "-i".toList] by decide)
    exact (hwell (ofTexts_eq_ok_iff.mp rfl).1).1 (by decide)
  · obtain ⟨-, hwell, horder⟩ := mode_selection
      (show ¬ AsksHelp ["-".toList, "--ast".toList, "--interactive".toList] by decide)
    have hsession := (hwell (ofTexts_eq_ok_iff.mp rfl).1).2.1 (by decide) (by decide)
    have hperm : List.Perm ["-".toList, "--ast".toList, "--interactive".toList]
        ["--interactive".toList, "-".toList, "--ast".toList] := by decide
    intro input
    exact ⟨hsession input, (horder _ _ [] rfl (by decide) hperm input).trans (hsession input)⟩
  · obtain ⟨-, hwell, -⟩ := mode_selection
      (show ¬ AsksHelp ["--tokens".toList, "--".toList, "--samples".toList] by decide)
    obtain ⟨outcome, hall, hresponse, hends⟩ := (hwell (ofTexts_eq_ok_iff.mp rfl).1).2.2
      (by decide) (by decide) "--samples".toList (by decide)
    refine ⟨outcome, hall, hresponse, ?_⟩
    rcases hends with hsucceeds | ⟨_, _, hreports⟩
    · have hnotices : (respondTokens "<expr>" "--samples".toList).notices ≠ [] := by decide +kernel
      exact absurd ((congrArg Response.notices hresponse).symm.trans hsucceeds.2) hnotices
    · exact hreports.exitCode_eq
  · obtain ⟨hrefused, -⟩ := mode_selection
      (show ¬ AsksHelp ["--ast".toList, "1".toList, "--tokens".toList] by decide)
    exact hrefused fun hwell => hwell.one_view (by decide)

end Calculator.Terminal
