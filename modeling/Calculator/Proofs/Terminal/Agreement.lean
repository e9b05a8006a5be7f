import Calculator.Proofs.Parse.Spacing
import Calculator.Proofs.Terminal.Modes
import Calculator.Proofs.Terminal.Transcript
import Calculator.Proofs.Text.Blank

/-!
# A session answers as the command line does

What is typed in a session can be put on the command line instead: the samples, the outline of a source or
its value. The two have their own ways of telling what is asked for, but they answer alike
(`line_answered`). Only the name of the source in a report is another.

A session takes the blanks around a line away. That is not seen either, because a scanner skips the same
blanks: the value of a source is that of the trimmed one, and a fault is told in the same words
(`evaluate_trim_words`), though at another place.
-/

namespace Calculator

open Text

/-! ## Blanks around a source -/

namespace Scanner

/-- Texts that differ in their blanks have one value, or fail in the same words. -/
theorem Spaced.evaluate_words {text text' : List Char} (h : Spaced text text') :
    (evaluate text').mapError Fault.words = (evaluate text).mapError Fault.words := by
  have hspaced : spacing.scanners (ofSource text) (ofSource text') := h
  have hwords := (spacing.evaluate hspaced).words_eq (f := id) fun v v' hv => hv.symm
  simpa using hwords

theorem spaced_start {gap : List Char} (hgap : ∀ c ∈ gap, isBlank c = true) (text : List Char) :
    Spaced text (gap ++ text) :=
  ⟨[], gap, text, rfl, rfl, hgap, nofun⟩

theorem spaced_end {gap : List Char} (hgap : ∀ c ∈ gap, isBlank c = true) (text : List Char) :
    Spaced text (text ++ gap) :=
  ⟨text, gap, [], (List.append_nil text).symm, (List.append_nil _).symm, hgap, fun _ _ _ => nofun⟩

end Scanner

/-- The blanks around a source do not change what is said of its value. -/
theorem evaluate_trim_words (source : List Char) :
    (evaluate source).mapError Fault.words = (evaluate (trim source)).mapError Fault.words := by
  obtain ⟨left, right, hsource, hleft, hright, -⟩ := exists_trim source
  calc (evaluate source).mapError Fault.words
      = (evaluate (left ++ trim source ++ right)).mapError Fault.words := by rw [← hsource]
    _ = (evaluate (left ++ trim source)).mapError Fault.words :=
        (Scanner.spaced_end hright _).evaluate_words
    _ = (evaluate (trim source)).mapError Fault.words := (Scanner.spaced_start hleft _).evaluate_words

namespace Terminal

/-! ## Responses that say the same -/

/-- Two reports of one fault in sources that go by different names. -/
structure Report.Renamed (name name' : String) (r r' : Report) : Prop where
  header_eq : r'.header = r.header
  location : ∃ place, r.location = some (name ++ place) ∧ r'.location = some (name' ++ place)
  label_eq : r'.label = r.label
  help_eq : r'.help = r.help

/-- Two reports in the same words, wherever the fault was found. -/
structure Report.SameWords (r r' : Report) : Prop where
  header_eq : r'.header = r.header
  message_eq : r'.label.message = r.label.message
  colour_eq : r'.label.colour = r.label.colour
  help_eq : r'.help = r.help

/-- Two notices that are related reports. -/
inductive Notice.Like (reports : Report → Report → Prop) : Notice → Notice → Prop where
  | report {r r' : Report} (h : reports r r') : Like reports (.report r) (.report r')

/-- Two responses with the same output, and with reports that are related one by one. -/
structure Response.Like (reports : Report → Report → Prop) (a b : Response) : Prop where
  output_eq : b.output = a.output
  notices : List.Forall₂ (Notice.Like reports) a.notices b.notices

theorem Response.like_ofLines (reports : Report → Report → Prop) (lines : List (List Char)) :
    Like reports (ofLines lines) (ofLines lines) :=
  ⟨rfl, .nil⟩

/-- Only the start of a location depends on the name of the source. -/
theorem exists_locationText (place : Option Place) :
    ∃ rest, ∀ name, locationText name place = name ++ rest := by
  cases place with
  | none => exact ⟨":?:?", fun _ => rfl⟩
  | some place =>
    refine ⟨":" ++ (String.ofList (numeral place.line) ++ (":" ++ String.ofList (numeral place.column))),
      fun name => ?_⟩
    simp only [locationText, String.append_assoc]

/-- The same fault under another name. -/
theorem Response.ofFault_renamed (name name' : String) {source : List Char} (hne : source ≠ [])
    (fault : Fault) :
    Like (Report.Renamed name name') (ofFault name source fault) (ofFault name' source fault) := by
  have hsource : ¬ source.isEmpty = true := by simpa using hne
  obtain ⟨rest, hlocation⟩ :=
    exists_locationText (placeAt source (fault.diagnostic.span.chars source).start)
  refine ⟨rfl, .cons (.report ?_) .nil⟩
  rw [Report.ofDiagnostic, if_neg hsource, Report.ofDiagnostic, if_neg hsource]
  exact ⟨rfl, ⟨rest, congrArg some (hlocation name), congrArg some (hlocation name')⟩, rfl, rfl⟩

/-- Faults in the same words, under any names and in any sources that are not empty. -/
theorem Response.ofFault_sameWords (name name' : String) {source source' : List Char}
    (hne : source ≠ []) (hne' : source' ≠ []) {fault fault' : Fault}
    (hwords : fault'.words = fault.words) :
    Like Report.SameWords (ofFault name source fault) (ofFault name' source' fault') := by
  have hsource : ¬ source.isEmpty = true := by simpa using hne
  have hsource' : ¬ source'.isEmpty = true := by simpa using hne'
  obtain ⟨hkind, hmessage, hhelp⟩ : fault'.cause.kind = fault.cause.kind ∧
      fault'.cause.message = fault.cause.message ∧ fault'.cause.help = fault.cause.help := by
    simpa [Fault.words] using hwords
  refine ⟨rfl, .cons (.report ?_) .nil⟩
  rw [Report.ofDiagnostic, if_neg hsource, Report.ofDiagnostic, if_neg hsource']
  simp only [Fault.diagnostic, Label.ofDiagnostic, hkind, hmessage, hhelp]
  exact ⟨rfl, rfl, rfl, rfl⟩

theorem respondValue_renamed (name name' : String) {source : List Char} (hne : source ≠ []) :
    Response.Like (Report.Renamed name name') (respondValue name source)
      (respondValue name' source) := by
  unfold respondValue
  cases evaluate source with
  | ok value => exact Response.like_ofLines _ _
  | error fault => exact Response.ofFault_renamed name name' hne fault

theorem respondOutline_renamed (name name' : String) {source : List Char} (hne : source ≠ []) :
    Response.Like (Report.Renamed name name') (respondOutline name source)
      (respondOutline name' source) := by
  unfold respondOutline
  cases Expr.parse source with
  | ok e => exact ⟨rfl, .nil⟩
  | error fault => exact Response.ofFault_renamed name name' hne fault

/-- The value of a source is told in the same words as that of the trimmed one. -/
theorem respondValue_trim (name name' : String) {source : List Char} (hne : trim source ≠ []) :
    Response.Like Report.SameWords (respondValue name (trim source)) (respondValue name' source) := by
  have hne' : source ≠ [] := by
    rintro rfl
    exact hne rfl
  have hwords := evaluate_trim_words source
  unfold respondValue
  cases htrim : evaluate (trim source) with
  | ok value =>
    cases hsource : evaluate source with
    | ok value' =>
      rw [hsource, htrim] at hwords
      obtain rfl : value' = value := Except.ok.inj hwords
      exact Response.like_ofLines _ _
    | error fault =>
      rw [hsource, htrim] at hwords
      cases hwords
  | error fault =>
    cases hsource : evaluate source with
    | ok value =>
      rw [hsource, htrim] at hwords
      cases hwords
    | error fault' =>
      rw [hsource, htrim] at hwords
      exact Response.ofFault_sameWords name name' hne hne' (Except.error.inj hwords)

/-! ## What a line asks for -/

/-- A line asks for the outline of a source: the word `ast`, blanks, and the source. -/
def AsksOutline (text source : List Char) : Prop :=
  ∃ c rest, text = "ast".toList ++ c :: rest ∧ isBlank c = true ∧ source = trimStart (c :: rest)

theorem outlineSource?_eq_some_iff {text source : List Char} :
    outlineSource? text = some source ↔ AsksOutline text source := by
  constructor
  · intro h
    unfold outlineSource? at h
    split at h
    · next c rest =>
      split at h
      · next hc => exact ⟨c, rest, rfl, hc, by rw [trimStart_cons hc, Option.some.inj h]⟩
      · cases h
    · cases h
  · rintro ⟨c, rest, rfl, hc, rfl⟩
    show (if isBlank c then some (trimStart rest) else none) = _
    rw [if_pos hc, trimStart_cons hc]

/-- Behind the blanks of a trimmed line that asks for an outline a source is left. -/
theorem AsksOutline.source_ne_nil {text source : List Char} (h : AsksOutline (trim text) source) :
    source ≠ [] := by
  obtain ⟨c, rest, htext, hc, rfl⟩ := h
  obtain ⟨-, -, -, -, -, -, hlast⟩ := exists_trim text
  intro hnil
  have hblank : ∀ d ∈ c :: rest, isBlank d = true := by simpa [trimStart] using hnil
  have hne : c :: rest ≠ [] := List.cons_ne_nil c rest
  have hend := hlast ((c :: rest).getLast hne) (by
    rw [htext, List.getLast?_append, List.getLast?_eq_some_getLast hne]
    rfl)
  rw [hblank _ (List.getLast_mem hne)] at hend
  cases hend

/-- A line with which a session goes on is for the samples, or for an outline, or for a value. -/
theorem LineCommand.ofLine_cases {text : List Char} (hne : trim text ≠ [])
    (hstays : ¬ (InAnyCase "exit" (trim text) ∨ InAnyCase "quit" (trim text))) :
    (InAnyCase "test" (trim text) → LineCommand.ofLine text = .samples) ∧
      (∀ source, ¬ InAnyCase "test" (trim text) → AsksOutline (trim text) source →
        LineCommand.ofLine text = .outline source) ∧
      (¬ InAnyCase "test" (trim text) → (∀ source, ¬ AsksOutline (trim text) source) →
        LineCommand.ofLine text = .value (trim text)) := by
  have hempty : ¬ (trim text).isEmpty = true := by simpa using hne
  have hword : ¬ (isWord "exit" (trim text) || isWord "quit" (trim text)) = true := by
    rwa [Bool.or_eq_true, isWord_iff (by decide), isWord_iff (by decide)]
  rw [← isWord_iff (by decide), ofLine, if_neg hempty, if_neg hword]
  refine ⟨fun htest => if_pos htest, fun source htest hasks => ?_, fun htest hnone => ?_⟩
  · rw [if_neg htest, outlineSource?_eq_some_iff.mpr hasks]
  · have houtline : outlineSource? (trim text) = none :=
      Option.eq_none_iff_forall_ne_some.mpr fun source hsource =>
        hnone source (outlineSource?_eq_some_iff.mp hsource)
    rw [if_neg htest, houtline]

/-- The line feed behind a line is a blank. -/
theorem Encodes.fed {line fed : List UInt8} {text : List Char} (h : Encodes line text)
    (hfed : fed = line ∨ fed = line ++ [10]) (hne : trim text ≠ []) :
    ∃ read, Encodes fed read ∧ trim read = trim text := by
  rcases hfed with rfl | rfl
  · exact ⟨text, h, rfl⟩
  · refine ⟨text ++ ['\n'], ?_, ?_⟩
    · have hnewline : (['\n'] : List Char).utf8Encode = ⟨#[10]⟩ := by decide
      have hline : line.toArray = text.utf8Encode.data := congrArg ByteArray.data h
      rw [Encodes, List.utf8Encode_append, hnewline]
      ext1
      simp [← hline]
    · obtain ⟨left, right, htext, hleft, hright, hfirst, hlast⟩ := exists_trim text
      have hblank : ∀ c ∈ right ++ ['\n'], isBlank c = true := by
        intro c hc
        rcases List.mem_append.mp hc with hc | hc
        · exact hright c hc
        · rw [List.mem_singleton.mp hc]
          decide
      calc trim (text ++ ['\n'])
          = trim (left ++ trim text ++ (right ++ ['\n'])) := by
            rw [← List.append_assoc, ← htext]
        _ = trim text := trim_eq hleft hblank hfirst hlast hne

/-- Only the blanks around a line are lost when it is read. -/
theorem LineCommand.ofLine_congr {text text' : List Char} (h : trim text = trim text') :
    LineCommand.ofLine text = LineCommand.ofLine text' := by
  rw [ofLine, ofLine, h]

theorem LineCommand.stops_answer {command : LineCommand} (h : command ≠ .leave) :
    command.answer.stops = false := by
  cases command with
  | leave => exact absurd rfl h
  | _ => rfl

/-- A session with a single line. -/
theorem session_of_line {line fed : List UInt8} {answer : Answer} (hne : line ≠ []) (hline : 10 ∉ line)
    (hfed : fed = line ∨ fed = line ++ [10]) (hanswer : answerLine fed = answer)
    (hstays : answer.stops = false) :
    session fed = greeting ++ (⟨"> ".toList, []⟩ ++ answer.response ++ ⟨"> \n".toList, []⟩) := by
  have hsplit : splitLines fed = [fed] := by
    rcases hfed with rfl | rfl
    · exact splitLines_of_not_mem hne hline
    · exact splitLines_append_newline hline []
  rw [session, hsplit, answerLines, hanswer, banner_eq]
  simp only [hstays]
  rfl

/-- A line of a session, with a line feed behind it or at the end of the input, that is neither blank nor
left with. The response to it is that of the samples on the command line, if it is the word for them. If it
asks for an outline, a source is named, and the response is that of its outline on the command line. In any
other case it is that of its value. Only the name of the source differs in a report. And the value of the
line with the blanks around it gives the same output, and the same report but for the place. -/
theorem line_answered {line : List UInt8} {text : List Char} (htext : Encodes line text)
    (hline : 10 ∉ line) (hne : trim text ≠ [])
    (hstays : ¬ (InAnyCase "exit" (trim text) ∨ InAnyCase "quit" (trim text))) :
    ∃ response,
      (∀ fed, fed = line ∨ fed = line ++ [10] → answerLine fed = ⟨response, false⟩ ∧
        session fed = greeting ++ (⟨"> ".toList, []⟩ ++ response ++ ⟨"> \n".toList, []⟩)) ∧
      (InAnyCase "test" (trim text) →
        ∀ arguments input, Asks arguments .samples → (run arguments input).response = response) ∧
      (¬ InAnyCase "test" (trim text) → ∀ source, AsksOutline (trim text) source →
        source ≠ [] ∧ ∀ arguments input, Asks arguments (.outline source) →
          Response.Like (Report.Renamed "<repl>" "<expr>") response
            (run arguments input).response) ∧
      (¬ InAnyCase "test" (trim text) → (∀ source, ¬ AsksOutline (trim text) source) →
        (∀ arguments input, Asks arguments (.value (trim text)) →
          Response.Like (Report.Renamed "<repl>" "<expr>") response
            (run arguments input).response) ∧
        ∀ arguments input, Asks arguments (.value text) →
          Response.Like Report.SameWords response (run arguments input).response) := by
  obtain ⟨hsamples, houtline, hvalue⟩ := LineCommand.ofLine_cases hne hstays
  have hnonempty : line ≠ [] := by
    rintro rfl
    have hempty : text = [] := List.utf8Encode_eq_empty.mp htext.symm
    rw [hempty] at hne
    exact hne rfl
  refine ⟨(LineCommand.ofLine text).answer.response, fun fed hfed => ?_, fun htest => ?_,
    fun htest source hasks => ⟨hasks.source_ne_nil, ?_⟩, fun htest hnone => ⟨?_, ?_⟩⟩
  · obtain ⟨read, hread, htrim⟩ := htext.fed hfed hne
    have hanswer : answerLine fed = (LineCommand.ofLine text).answer := by
      rw [answerLine, decodeLine_eq_some_iff.mpr hread]
      exact congrArg LineCommand.answer (LineCommand.ofLine_congr htrim)
    have hgoes : (LineCommand.ofLine text).answer.stops = false :=
      LineCommand.stops_answer (mt LineCommand.ofLine_eq_leave_iff.mp hstays)
    refine ⟨?_, session_of_line hnonempty hline hfed hanswer hgoes⟩
    rw [hanswer, ← hgoes]
  · intro arguments input hasked
    rw [hasked.run_eq, hsamples htest]
    rfl
  · intro arguments input hasked
    rw [hasked.run_eq, houtline source htest hasks]
    exact respondOutline_renamed _ _ hasks.source_ne_nil
  · intro arguments input hasked
    rw [hasked.run_eq, hvalue htest hnone]
    exact respondValue_renamed _ _ hne
  · intro arguments input hasked
    rw [hasked.run_eq, hvalue htest hnone]
    exact respondValue_trim _ _ hne

/-- A division by zero between blanks, of which the first takes three bytes. On the command line it stands
one column further to the right if the blanks are kept. -/
theorem line_answered_division_by_zero :
    let line : List UInt8 := [0xE3, 0x80, 0x80, 56, 47, 48, 32]
    ∃ response, answerLine (line ++ [10]) = ⟨response, false⟩ ∧
      response = respondValue "<repl>" "8/0".toList ∧
      Response.Like (Report.Renamed "<repl>" "<expr>") response
        (run ["--".toList, "8/0".toList] []).response ∧
      Response.Like Report.SameWords response
        (run ["--".toList, "\u30008/0 ".toList] []).response ∧
      (run ["--".toList, "\u30008/0 ".toList] []).response ≠
        (run ["--".toList, "8/0".toList] []).response := by
  intro line
  have htext : Encodes line "\u30008/0 ".toList := decodeLine_eq_some_iff.mp (by decide +kernel)
  have htrim : trim "\u30008/0 ".toList = "8/0".toList := by decide +kernel
  have hnot : ∀ word : String, word.toList.all Char.isLower = true →
      isWord word "8/0".toList = false → ¬ InAnyCase word (trim "\u30008/0 ".toList) := by
    intro word hsmall hword
    rw [htrim, ← isWord_iff hsmall, hword]
    exact Bool.false_ne_true
  have hstays : ¬ (InAnyCase "exit" (trim "\u30008/0 ".toList) ∨
      InAnyCase "quit" (trim "\u30008/0 ".toList)) :=
    not_or.mpr ⟨hnot _ (by decide) (by decide), hnot _ (by decide) (by decide)⟩
  have hnone : ∀ source, ¬ AsksOutline (trim "\u30008/0 ".toList) source := by
    intro source
    rw [htrim, ← outlineSource?_eq_some_iff]
    exact nofun
  obtain ⟨response, hanswer, -, -, hvalue⟩ :=
    line_answered htext (by decide) (by rw [htrim]; exact nofun) hstays
  obtain ⟨htrimmed, hwhole⟩ := hvalue (hnot _ (by decide) (by decide)) hnone
  rw [htrim] at htrimmed
  refine ⟨response, (hanswer _ (Or.inr rfl)).1, ?_, htrimmed _ _ (asks_about _).1,
    hwhole _ _ (asks_about _).1, by decide +kernel⟩
  have hcomputed : answerLine (line ++ [10]) = ⟨respondValue "<repl>" "8/0".toList, false⟩ := by
    decide +kernel
  exact congrArg Answer.response ((hanswer _ (Or.inr rfl)).1.symm.trans hcomputed)

end Terminal

end Calculator
