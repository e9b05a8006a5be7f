import Mathlib.Data.List.Forall2
import Calculator.Terminal.Request

/-!
# What a session says

A session is told by its lines. `Lines` is how an input falls into lines, and `StopsWith` which lines stop
a session, and with what. Up to such a line a session says `> ` and an answer for each line, and the
answer to a line depends on the bytes of that line only (`said`). What it says of itself, in front of the
lines and behind them, is written out here as it is seen.

So sessions can be joined (`session_law`): behind complete lines of which none has stopped it, a session
goes on like a new one, whatever was answered before.
-/

namespace Calculator.Terminal

/-! ## Lines -/

/-- An input falls into lines behind each line feed. What stands behind the last one is a line as well,
unless it is empty. -/
inductive Lines : List UInt8 → List (List UInt8) → Prop where
  | nil : Lines [] []
  | last {line : List UInt8} (hne : line ≠ []) (hline : 10 ∉ line) : Lines line [line]
  | cons {line rest : List UInt8} {lines : List (List UInt8)} (hline : 10 ∉ line)
      (hrest : Lines rest lines) : Lines (line ++ 10 :: rest) ((line ++ [10]) :: lines)

theorem splitLines_of_not_mem {line : List UInt8} (hne : line ≠ []) (hline : 10 ∉ line) :
    splitLines line = [line] := by
  induction line with
  | nil => exact absurd rfl hne
  | cons byte rest ih =>
    rw [splitLines, if_neg (List.ne_of_not_mem_cons hline).symm]
    cases rest with
    | nil => rfl
    | cons next rest => rw [ih (List.cons_ne_nil _ _) (List.not_mem_of_not_mem_cons hline)]

theorem splitLines_append_newline {line : List UInt8} (hline : 10 ∉ line) (rest : List UInt8) :
    splitLines (line ++ 10 :: rest) = (line ++ [10]) :: splitLines rest := by
  induction line with
  | nil =>
    show splitLines (10 :: rest) = [10] :: splitLines rest
    rw [splitLines, if_pos rfl]
  | cons byte line ih =>
    rw [List.cons_append, splitLines, if_neg (List.ne_of_not_mem_cons hline).symm,
      ih (List.not_mem_of_not_mem_cons hline), List.cons_append]

theorem Lines.eq_splitLines {input : List UInt8} {lines : List (List UInt8)} (h : Lines input lines) :
    lines = splitLines input := by
  induction h with
  | nil => rfl
  | last hne hline => exact (splitLines_of_not_mem hne hline).symm
  | cons hline _ ih => rw [splitLines_append_newline hline, ih]

theorem lines_splitLines (input : List UInt8) : Lines input (splitLines input) := by
  by_cases hmem : 10 ∈ input
  · obtain ⟨line, rest, hinput, hline⟩ := List.eq_append_cons_of_mem hmem
    have hshorter : rest.length < input.length := by
      rw [hinput, List.length_append, List.length_cons]
      omega
    rw [hinput, splitLines_append_newline hline]
    exact .cons hline (lines_splitLines rest)
  · by_cases hne : input = []
    · rw [hne]
      exact .nil
    · rw [splitLines_of_not_mem hne hmem]
      exact .last hne hmem
termination_by input.length

/-- Behind a line feed the lines of what follows go on. -/
theorem Lines.splitLines_append {input : List UInt8} {lines : List (List UInt8)} (h : Lines input lines)
    (hend : ∀ byte, input.getLast? = some byte → byte = 10) (more : List UInt8) :
    splitLines (input ++ more) = lines ++ splitLines more := by
  induction h with
  | nil => rfl
  | @last line hne hline =>
    have hlast := hend _ (List.getLast?_eq_some_getLast hne)
    exact absurd (hlast ▸ List.getLast_mem hne) hline
  | @cons line rest lines hline _ ih =>
    have hrest : ∀ byte, rest.getLast? = some byte → byte = 10 := by
      intro byte hbyte
      refine hend byte ?_
      rw [List.getLast?_append, List.getLast?_cons, hbyte]
      rfl
    rw [List.append_assoc, List.cons_append, splitLines_append_newline hline, ih hrest, List.cons_append]

/-! ## What stops a session -/

/-- A line is UTF-8 for a text. -/
def Encodes (line : List UInt8) (text : List Char) : Prop :=
  (⟨line.toArray⟩ : ByteArray) = text.utf8Encode

theorem decodeLine_eq_some_iff {line : List UInt8} {text : List Char} :
    decodeLine line = some text ↔ Encodes line text := by
  unfold decodeLine Encodes String.fromUTF8?
  generalize (⟨line.toArray⟩ : ByteArray) = bytes
  split
  · next hvalid =>
    obtain ⟨chars, rfl⟩ := hvalid
    show some (String.ofList chars).toList = some text ↔ _
    rw [String.toList_ofList, Option.some.injEq]
    refine ⟨congrArg List.utf8Encode, fun hsame => String.ofList_injective ?_⟩
    exact String.toByteArray_inj.mp hsame
  · next hinvalid =>
    exact ⟨nofun, fun hsame => absurd ⟨text, hsame⟩ hinvalid⟩

/-- A text is a word of small letters, any of which may be a capital instead. -/
def InAnyCase (word : String) (text : List Char) : Prop :=
  List.Forall₂ (fun small c => c = small ∨ c = small.toUpper) word.toList text

theorem toLower_eq_iff {small c : Char} (hsmall : small.isLower = true) :
    c.toLower = small ↔ c = small ∨ c = small.toUpper := by
  have hsmall' : 'a'.val ≤ small.val ∧ small.val ≤ 'z'.val := by
    have hletter : (decide ('a'.val ≤ small.val) && decide (small.val ≤ 'z'.val)) = true := hsmall
    simpa using hletter
  unfold Char.toLower Char.toUpper
  rw [dif_pos hsmall']
  -- a capital letter and its small one lie 32 apart, and no other character comes near
  split
  all_goals
    simp only [Char.ext_iff]
    simp only [← UInt32.toNat_inj, UInt32.le_iff_toNat_le, UInt32.toNat_add] at *
    simp at *
    omega

theorem isWord_iff {word : String} {text : List Char} (hsmall : word.toList.all Char.isLower = true) :
    isWord word text = true ↔ InAnyCase word text := by
  unfold isWord InAnyCase
  rw [decide_eq_true_iff]
  generalize word.toList = letters at *
  induction letters generalizing text with
  | nil => rw [List.map_eq_nil_iff, List.forall₂_nil_left_iff]
  | cons small letters ih =>
    obtain ⟨hfirst, hothers⟩ : small.isLower = true ∧ letters.all Char.isLower = true := by
      simpa using hsmall
    cases text with
    | nil => simp
    | cons c text =>
      rw [List.map_cons, List.cons.injEq, List.forall₂_cons, toLower_eq_iff hfirst, ih hothers]

/-- A line stops a session with a last response: a line that is no text, with a notice, and the word to
leave with a farewell. -/
inductive StopsWith (line : List UInt8) : Response → Prop where
  | unreadable (h : ∀ text, ¬ Encodes line text) : StopsWith line ⟨[], [.unreadableLine]⟩
  | leave {text : List Char} (htext : Encodes line text)
      (hword : InAnyCase "exit" (Text.trim text) ∨ InAnyCase "quit" (Text.trim text)) :
      StopsWith line ⟨"Goodbye!\n".toList, []⟩

/-- A line stops a session. -/
def Stops (line : List UInt8) : Prop := ∃ response, StopsWith line response

theorem LineCommand.ofLine_eq_leave_iff {text : List Char} :
    LineCommand.ofLine text = .leave ↔
      InAnyCase "exit" (Text.trim text) ∨ InAnyCase "quit" (Text.trim text) := by
  have hexit : isWord "exit" (Text.trim text) = true ↔ _ := isWord_iff (by decide)
  have hquit : isWord "quit" (Text.trim text) = true ↔ _ := isWord_iff (by decide)
  rw [← hexit, ← hquit, ofLine]
  generalize Text.trim text = trimmed
  by_cases hleave : (isWord "exit" trimmed || isWord "quit" trimmed) = true
  · have hne : ¬ trimmed.isEmpty = true := by
      intro hempty
      rw [List.isEmpty_iff.mp hempty] at hleave
      exact absurd hleave (by decide)
    rw [if_neg hne, if_pos hleave]
    exact iff_of_true rfl (by simpa using hleave)
  · refine iff_of_false (fun h => ?_) (by simpa using hleave)
    rw [if_neg hleave] at h
    repeat' split at h
    all_goals cases h

theorem StopsWith.answerLine_eq {line : List UInt8} {response : Response} (h : StopsWith line response) :
    answerLine line = ⟨response, true⟩ := by
  cases h with
  | unreadable hnone =>
    have hdecode : decodeLine line = none := by
      rw [Option.eq_none_iff_forall_ne_some]
      exact fun text htext => hnone text (decodeLine_eq_some_iff.mp htext)
    rw [answerLine, hdecode]
  | leave htext hword =>
    rw [answerLine, decodeLine_eq_some_iff.mpr htext]
    dsimp only
    rw [LineCommand.ofLine_eq_leave_iff.mpr hword]
    rfl

theorem stops_iff {line : List UInt8} : (answerLine line).stops = true ↔ Stops line := by
  constructor
  · intro h
    unfold answerLine at h
    split at h
    · next text htext =>
      have hleave : LineCommand.ofLine text = .leave := by
        cases hcommand : LineCommand.ofLine text with
        | leave => rfl
        | _ => simp [hcommand, LineCommand.answer] at h
      exact ⟨_, .leave (decodeLine_eq_some_iff.mp htext) (LineCommand.ofLine_eq_leave_iff.mp hleave)⟩
    · next hnone =>
      refine ⟨_, .unreadable fun text htext => ?_⟩
      rw [decodeLine_eq_some_iff.mpr htext] at hnone
      cases hnone
  · rintro ⟨response, h⟩
    rw [h.answerLine_eq]

/-! ## What is said -/

/-- What is said first. -/
def greeting : Response :=
  ⟨"arith 0.1.0\n".toList ++ "Supports +, -, *, / and parentheses\n".toList ++
    "Type 'exit' to quit, 'test' for sample expressions, 'ast <expr>' to show a tree\n\n".toList, []⟩

/-- What is said to lines: a prompt before each, and its answer. -/
def said (lines : List (List UInt8)) : Response :=
  lines.foldr (fun line later => ⟨"> ".toList, []⟩ ++ (answerLine line).response ++ later) ⟨[], []⟩

theorem banner_eq : banner = greeting := by decide +kernel

theorem prompt_append_closing : prompt ++ closing = ⟨"> \n".toList, []⟩ := rfl

theorem said_cons (line : List UInt8) (lines : List (List UInt8)) :
    said (line :: lines) = prompt ++ (answerLine line).response ++ said lines := rfl

/-- A session goes on behind lines that do not stop it. -/
theorem answerLines_append {before : List (List UInt8)} (h : ∀ line ∈ before, ¬ Stops line)
    (after : List (List UInt8)) : answerLines (before ++ after) = said before ++ answerLines after := by
  induction before with
  | nil => rfl
  | cons line before ih =>
    obtain ⟨hline, hbefore⟩ := List.forall_mem_cons.mp h
    rw [List.cons_append, answerLines, if_neg (mt stops_iff.mp hline), ih hbefore, said_cons,
      Response.append_assoc _ (said before)]

/-- A line that stops the session is the last one that is answered. -/
theorem StopsWith.answerLines_eq {line : List UInt8} {response : Response} (h : StopsWith line response)
    (after : List (List UInt8)) : answerLines (line :: after) = prompt ++ response := by
  rw [answerLines, h.answerLine_eq]
  exact congrArg (prompt ++ ·) (Response.append_silent response)

/-- What stands behind a line that stops the session is not answered. -/
theorem answerLines_append_of_stops {lines : List (List UInt8)} (h : ∃ line ∈ lines, Stops line)
    (more : List (List UInt8)) : answerLines (lines ++ more) = answerLines lines := by
  induction lines with
  | nil => simp at h
  | cons line lines ih =>
    by_cases hline : Stops line
    · obtain ⟨response, hstops⟩ := hline
      rw [List.cons_append, hstops.answerLines_eq, hstops.answerLines_eq]
    · have hlater : ∃ line ∈ lines, Stops line := by
        obtain ⟨found, hmem, hstops⟩ := h
        rcases List.mem_cons.mp hmem with rfl | hmem
        · exact absurd hstops hline
        · exact ⟨found, hmem, hstops⟩
      rw [List.cons_append, answerLines, ih hlater]
      rfl

/-- An input falls into lines in one way. Behind its greeting, a session answers them, a prompt before each,
and an answer depends on its line only. At the first line that stops it, the session ends with a prompt and
the response of that line. If there is none, it ends with a last prompt and an empty line. So behind
complete lines of which none stops the session, it says of any further input what a new session says of
that; and what stands behind a line that stops the session does not matter. The exit code of a session
is 0. -/
theorem session_law (input : List UInt8) :
    ∃ lines, Lines input lines ∧ (∀ others, Lines input others → others = lines) ∧
      ((∀ line ∈ lines, ¬ Stops line) →
        session input = greeting ++ said lines ++ ⟨"> \n".toList, []⟩) ∧
      (∀ before line after response, lines = before ++ line :: after →
        (∀ earlier ∈ before, ¬ Stops earlier) → StopsWith line response →
        session input = greeting ++ said before ++ (⟨"> ".toList, []⟩ ++ response)) ∧
      (∀ more, input.getLast? = some 10 → (∀ line ∈ lines, ¬ Stops line) →
        ∃ told, session more = greeting ++ told ∧
          session (input ++ more) = greeting ++ said lines ++ told) ∧
      (∀ more, input.getLast? = some 10 → (∃ line ∈ lines, Stops line) →
        session (input ++ more) = session input) ∧
      ∀ arguments, Asks arguments .session → run arguments input = ⟨0, session input⟩ := by
  have hlines := lines_splitLines input
  have hjoin : ∀ more, input.getLast? = some 10 →
      splitLines (input ++ more) = splitLines input ++ splitLines more := by
    intro more hend
    refine hlines.splitLines_append (fun byte hbyte => ?_) more
    exact Option.some.inj (hbyte.symm.trans hend)
  refine ⟨splitLines input, hlines, fun _ hothers => hothers.eq_splitLines, ?_, ?_, ?_, ?_, ?_⟩
  · intro hnone
    have hall := answerLines_append hnone []
    rw [List.append_nil] at hall
    rw [session, hall, answerLines, prompt_append_closing, banner_eq, Response.append_assoc]
  · intro before line after response hcut hbefore hstops
    rw [session, hcut, answerLines_append hbefore, hstops.answerLines_eq, banner_eq,
      Response.append_assoc]
    rfl
  · intro more hend hnone
    refine ⟨answerLines (splitLines more), by rw [session, banner_eq], ?_⟩
    rw [session, hjoin more hend, answerLines_append hnone, banner_eq, Response.append_assoc]
  · intro more hend hsome
    rw [session, session, hjoin more hend, answerLines_append_of_stops hsome]
  · intro arguments hasks
    exact hasks.run_eq input

/-- The sum in the first line lacks an operand, which is reported. The session goes on until it is left
with a word in mixed letters, between blanks, and exits with 0 nevertheless. -/
theorem session_law_left :
    let faulty : List UInt8 := [49, 43, 13, 10]
    let leave : List UInt8 := [0xE3, 0x80, 0x80, 81, 117, 73, 116, 10]
    (answerLine faulty).response.failed = true ∧
    run ["-i".toList] (faulty ++ leave) =
      ⟨0, greeting ++ said [faulty] ++ ⟨"> Goodbye!\n".toList, []⟩⟩ ∧
    (∃ told, session leave = greeting ++ told ∧
      session (faulty ++ leave) = greeting ++ said [faulty] ++ told) ∧
    session (faulty ++ leave ++ [49, 43, 49]) = session (faulty ++ leave) := by
  intro faulty leave
  have hline : ∀ rest lines, Lines rest lines → Lines (faulty ++ rest) (faulty :: lines) := by
    intro rest lines hrest
    show Lines ([49, 43, 13] ++ 10 :: rest) (([49, 43, 13] ++ [10]) :: lines)
    exact .cons (by decide) hrest
  have hlast : Lines leave [leave] := by
    show Lines ([0xE3, 0x80, 0x80, 81, 117, 73, 116] ++ 10 :: [])
      [[0xE3, 0x80, 0x80, 81, 117, 73, 116] ++ [10]]
    exact .cons (by decide) .nil
  have hon : ∀ line ∈ [faulty], ¬ Stops line := by
    intro line hline
    rw [List.mem_singleton.mp hline, ← stops_iff]
    decide +kernel
  have hleave : StopsWith leave ⟨"Goodbye!\n".toList, []⟩ := by
    have htext : Encodes leave "\u3000QuIt\n".toList := decodeLine_eq_some_iff.mp (by decide +kernel)
    have hword : isWord "quit" (Text.trim "\u3000QuIt\n".toList) = true := by decide +kernel
    exact .leave htext (Or.inr ((isWord_iff (by decide)).mp hword))
  have hasks : Asks ["-i".toList] .session := ⟨_, rfl, rfl⟩
  obtain ⟨lines, -, hunique, -, -, hgoes, -, -⟩ := session_law faulty
  obtain rfl := hunique _ (hline [] [] .nil)
  obtain ⟨lines, -, hunique', -, hstop, -, hover, hexit⟩ := session_law (faulty ++ leave)
  obtain rfl := hunique' _ (hline leave [leave] hlast)
  refine ⟨by decide +kernel, ?_, hgoes leave rfl hon, ?_⟩
  · rw [hexit _ hasks, hstop [faulty] leave [] _ rfl hon hleave]
    rfl
  · exact hover _ rfl ⟨leave, by simp, _, hleave⟩

end Calculator.Terminal
