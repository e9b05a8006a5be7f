import Calculator.Terminal.Arguments

/-!
# Arguments added up

The arguments are taken from left to right, and the first that is refused decides. Still it can be told
without an order what they say together, because a step adds one argument to what was said, and a run of steps
adds them up (`foldlM_take_eq_ok_iff`): a flag is counted before and behind, and a source stands in a list
before and behind. As each flag is there once at most, and one source at most, what is refused is what does
not add up.

In front of the separator an argument is said by a text of its own, but for letters behind a single dash. Of
those only one letter is that of a flag, so where nothing is refused each text says one thing
(`known_of_ofText`).
-/

namespace Calculator.Terminal

/-! ## What is said so far -/

/-- The source that an argument says. -/
def Argument.source? : Argument → Option (List Char)
  | .source text => some text
  | _ => none

/-- What was said, and arguments, add up to what is said behind them. -/
structure Options.Adds (options : Options) (arguments : List Argument) (last : Options) : Prop where
  flags : ∀ flag, (options.has flag).toNat + arguments.count (.flag flag) = (last.has flag).toNat
  source : options.source.toList ++ arguments.filterMap Argument.source? = last.source.toList
  help : .help ∉ arguments
  unknown : .unknown ∉ arguments

namespace Options

/-- Options are told apart by their flags and their source. -/
theorem eq_of_has {a b : Options} (hflags : ∀ flag, a.has flag = b.has flag)
    (hsource : a.source = b.source) : a = b := by
  cases a
  cases b
  obtain rfl := hflags .ast
  obtain rfl := hflags .tokens
  obtain rfl := hflags .samples
  obtain rfl := hflags .interactive
  obtain rfl := hsource
  rfl

section

variable {options next last : Options} {arguments : List Argument} {argument : Argument}

theorem adds_nil_iff : options.Adds [] last ↔ options = last := by
  constructor
  · intro h
    have hinj : ∀ a b : Bool, a.toNat = b.toNat → a = b := by decide
    refine eq_of_has (fun flag => ?_) ?_
    · have hflag := h.flags flag
      rw [List.count_nil, Nat.add_zero] at hflag
      exact hinj _ _ hflag
    · have hsource := congrArg List.head? h.source
      rwa [List.filterMap_nil, List.append_nil, Option.head?_toList, Option.head?_toList] at hsource
  · rintro rfl
    exact ⟨fun _ => rfl, List.append_nil _, List.not_mem_nil, List.not_mem_nil⟩

/-- Arguments can be added in parts. -/
theorem Adds.append_iff {more : List Argument} (h : options.Adds arguments next) :
    options.Adds (arguments ++ more) last ↔ next.Adds more last := by
  constructor
  · intro hall
    refine ⟨fun flag => ?_, ?_, fun hmem => hall.help (List.mem_append_right _ hmem),
      fun hmem => hall.unknown (List.mem_append_right _ hmem)⟩
    · have hflag := hall.flags flag
      rwa [List.count_append, ← Nat.add_assoc, h.flags] at hflag
    · have hsource := hall.source
      rwa [List.filterMap_append, ← List.append_assoc, h.source] at hsource
  · intro hmore
    refine ⟨fun flag => ?_, ?_, ?_, ?_⟩
    · rw [List.count_append, ← Nat.add_assoc, h.flags, hmore.flags]
    · rw [List.filterMap_append, ← List.append_assoc, h.source, hmore.source]
    · exact fun hmem => (List.mem_append.mp hmem).elim h.help hmore.help
    · exact fun hmem => (List.mem_append.mp hmem).elim h.unknown hmore.unknown

/-- An argument that is taken is added. -/
theorem adds_of_take (h : options.take argument = .ok next) : options.Adds [argument] next := by
  cases argument with
  | flag flag =>
    by_cases hgiven : options.has flag
    · simp [take, hgiven] at h
    · obtain rfl : options.give flag = next := by simpa [take, hgiven] using h
      refine ⟨fun other => ?_, ?_, by simp, by simp⟩
      · rw [has_give]
        by_cases hother : other = flag
        · simp [hother, hgiven]
        · simp [hother, Ne.symm hother]
      · cases flag <;> simp [give, Argument.source?]
  | source source =>
    by_cases hsome : options.source.isSome
    · simp [take, hsome] at h
    · obtain rfl : { options with source := some source } = next := by simpa [take, hsome] using h
      have hnone : options.source = none := by simpa using hsome
      refine ⟨fun flag => ?_, by simp [hnone, Argument.source?], by simp, by simp⟩
      cases flag <;> simp [has]
  | help => cases h
  | unknown => cases h

/-- An argument that can be added, with others behind it, is taken. -/
theorem Adds.exists_take (h : options.Adds (argument :: arguments) last) :
    ∃ next, options.take argument = .ok next := by
  cases argument with
  | flag flag =>
    have hcount := h.flags flag
    have hle : (last.has flag).toNat ≤ 1 := Bool.toNat_le _
    rw [List.count_cons_self] at hcount
    have hgiven : options.has flag = false := by
      rw [← Bool.toNat_eq_zero]
      omega
    exact ⟨_, if_neg (by simp [hgiven])⟩
  | source source =>
    have hlength := congrArg List.length h.source
    have hle : last.source.toList.length ≤ 1 := Option.length_toList_le
    have hnone : options.source = none := by
      cases hsome : options.source with
      | none => rfl
      | some _ =>
        simp [hsome, Argument.source?] at hlength
        omega
    exact ⟨_, if_neg (by simp [hnone])⟩
  | help => exact absurd List.mem_cons_self h.help
  | unknown => exact absurd List.mem_cons_self h.unknown

/-- A run over arguments adds them up. -/
theorem foldlM_take_eq_ok_iff :
    arguments.foldlM take options = .ok last ↔ options.Adds arguments last := by
  induction arguments generalizing options with
  | nil =>
    rw [adds_nil_iff]
    exact ⟨Except.ok.inj, congrArg Except.ok⟩
  | cons argument arguments ih =>
    rw [List.foldlM_cons]
    cases htake : options.take argument with
    | ok next =>
      have hnext := adds_of_take htake
      exact ih.trans hnext.append_iff.symm
    | error refusal =>
      -- what is refused does not add up, whatever stands behind it
      refine iff_of_false nofun fun h => ?_
      obtain ⟨next, hok⟩ := h.exists_take
      cases htake.symm.trans hok

/-- A run over arguments ends with help only if one of them asks for it. -/
theorem help_mem_of_foldlM_take (h : arguments.foldlM take options = .error .help) :
    .help ∈ arguments := by
  induction arguments generalizing options with
  | nil => cases h
  | cons argument arguments ih =>
    rw [List.foldlM_cons] at h
    cases htake : options.take argument with
    | ok next =>
      rw [htake] at h
      exact List.mem_cons_of_mem _ (ih h)
    | error refusal =>
      rw [htake] at h
      obtain rfl : refusal = .help := Except.error.inj h
      cases argument with
      | help => exact List.mem_cons_self
      | unknown => cases htake
      | flag flag =>
        rw [take] at htake
        split at htake <;> cases htake
      | source source =>
        rw [take] at htake
        split at htake <;> cases htake

end

end Options

/-! ## How arguments are written -/

/-- The text behind which no text is a flag. -/
def separator : List Char := "--".toList

/-- How the flags are written. -/
def spellings : List (List Char × Flag) :=
  [("--ast".toList, .ast), ("--tokens".toList, .tokens), ("--samples".toList, .samples),
   ("--interactive".toList, .interactive), ("-i".toList, .interactive)]

/-- In front of the separator a text is a source if it is a lone dash, or does not start with a dash. -/
def IsSource (text : List Char) : Prop := text = ['-'] ∨ text.head? ≠ some '-'

instance : DecidablePred IsSource := fun _ => inferInstanceAs (Decidable (_ ∨ _))

/-- In front of the separator a text can be read if it is a source, or the spelling of a flag. -/
def IsKnown (text : List Char) : Prop := IsSource text ∨ ∃ flag, (text, flag) ∈ spellings

/-- A text asks for help with a word, or with a letter behind a single dash. -/
def IsHelp (text : List Char) : Prop :=
  text = "--help".toList ∨ text.head? = some '-' ∧ text[1]? ≠ some '-' ∧ 'h' ∈ text

instance : DecidablePred IsHelp := fun _ => inferInstanceAs (Decidable (_ ∨ _))

/-- The arguments in front of the separator. -/
def leading (arguments : List (List Char)) : List (List Char) := arguments.takeWhile (· ≠ separator)

/-- The arguments behind the separator. -/
def trailing (arguments : List (List Char)) : List (List Char) :=
  (arguments.dropWhile (· ≠ separator)).tail

namespace Argument

/-- A text in front of the separator is a source, or a word behind two dashes, or letters behind one. -/
theorem text_cases (text : List Char) :
    IsSource text ∨ (∃ word, text = '-' :: '-' :: word) ∨
      ∃ letter letters, letter ≠ '-' ∧ text = '-' :: letter :: letters := by
  rcases text with _ | ⟨first, rest⟩
  · exact Or.inl (Or.inr nofun)
  by_cases hdash : first = '-'
  · subst hdash
    rcases rest with _ | ⟨letter, letters⟩
    · exact Or.inl (Or.inl rfl)
    by_cases hletter : letter = '-'
    · exact Or.inr (Or.inl ⟨letters, by rw [hletter]⟩)
    · exact Or.inr (Or.inr ⟨letter, letters, hletter, rfl⟩)
  · exact Or.inl (Or.inr (by simpa using hdash))

theorem ofText_of_isSource {text : List Char} (h : IsSource text) : ofText text = [.source text] := by
  unfold ofText
  split
  · rcases h with h | h <;> simp at h
  · rcases h with h | h <;> simp at h
  · rfl

theorem ofText_letters {letter : Char} (h : letter ≠ '-') (letters : List Char) :
    ofText ('-' :: letter :: letters) = (letter :: letters).map ofLetter := by
  unfold ofText
  split
  · next heq =>
    injection heq with _ heq
    injection heq with heq
    exact absurd heq h
  · next heq =>
    injection heq with _ heq
    rw [heq]
  · next hnot => exact absurd rfl (hnot letter letters)

/-- A word is a flag in its spelling, or it asks for help, or it is unknown. -/
theorem ofWord_cases (word : List Char) :
    (∃ flag, ofWord word = .flag flag ∧ ('-' :: '-' :: word, flag) ∈ spellings) ∨
      ofWord word = .help ∧ word = "help".toList ∨ ofWord word = .unknown := by
  unfold ofWord
  split
  · next h => exact Or.inl ⟨_, rfl, by subst h; decide⟩
  split
  · next h => exact Or.inl ⟨_, rfl, by subst h; decide⟩
  split
  · next h => exact Or.inl ⟨_, rfl, by subst h; decide⟩
  split
  · next h => exact Or.inl ⟨_, rfl, by subst h; decide⟩
  split
  · next h => exact Or.inr (Or.inl ⟨rfl, h⟩)
  · exact Or.inr (Or.inr rfl)

/-- A letter is that of a flag, or it asks for help, or it is unknown. -/
theorem ofLetter_cases (letter : Char) :
    letter = 'i' ∧ ofLetter letter = .flag .interactive ∨
      letter = 'h' ∧ ofLetter letter = .help ∨ ofLetter letter = .unknown := by
  unfold ofLetter
  split
  · exact Or.inl ⟨rfl, rfl⟩
  · exact Or.inr (Or.inl ⟨rfl, rfl⟩)
  · exact Or.inr (Or.inr rfl)

/-- A spelling says its flag and nothing else. -/
theorem ofText_of_spelling {text : List Char} {flag : Flag} (h : (text, flag) ∈ spellings) :
    ofText text = [.flag flag] := by
  simp only [spellings, List.mem_cons, Prod.mk.injEq, List.not_mem_nil, or_false] at h
  rcases h with ⟨rfl, rfl⟩ | ⟨rfl, rfl⟩ | ⟨rfl, rfl⟩ | ⟨rfl, rfl⟩ | ⟨rfl, rfl⟩ <;> decide

theorem source?_ofWord (word : List Char) : (ofWord word).source? = none := by
  rcases ofWord_cases word with ⟨flag, h, -⟩ | ⟨h, -⟩ | h <;> rw [h] <;> rfl

theorem source?_ofLetter (letter : Char) : (ofLetter letter).source? = none := by
  rcases ofLetter_cases letter with ⟨-, h⟩ | ⟨-, h⟩ | h <;> rw [h] <;> rfl

/-- The source that a text says is the text itself. -/
theorem filterMap_source?_ofText (text : List Char) :
    (ofText text).filterMap source? = [text].filter (IsSource ·) := by
  rcases text_cases text with hsource | ⟨word, rfl⟩ | ⟨letter, letters, hletter, rfl⟩
  · rw [ofText_of_isSource hsource]
    simp [source?, hsource]
  · show [ofWord word].filterMap source? = _
    simp [source?_ofWord, IsSource]
  · have hnone : ∀ c ∈ letter :: letters, (source? ∘ ofLetter) c = none :=
      fun c _ => source?_ofLetter c
    rw [ofText_letters hletter, List.filterMap_map, List.filterMap_eq_nil_iff.mpr hnone]
    simp [IsSource]

theorem help_mem_ofText_iff {text : List Char} : .help ∈ ofText text ↔ IsHelp text := by
  constructor
  · intro h
    rcases text_cases text with hsource | ⟨word, rfl⟩ | ⟨letter, letters, hletter, rfl⟩
    · rw [ofText_of_isSource hsource] at h
      simp at h
    · have hword : .help = ofWord word := List.mem_singleton.mp h
      rcases ofWord_cases word with ⟨flag, hflag, -⟩ | ⟨-, rfl⟩ | hunknown
      · cases hword.trans hflag
      · exact Or.inl rfl
      · cases hword.trans hunknown
    · rw [ofText_letters hletter] at h
      obtain ⟨c, hmem, hhelp⟩ := List.mem_map.mp h
      rcases ofLetter_cases c with ⟨-, hflag⟩ | ⟨rfl, -⟩ | hunknown
      · cases hhelp.symm.trans hflag
      · exact Or.inr ⟨rfl, by simpa using hletter, List.mem_cons_of_mem _ hmem⟩
      · cases hhelp.symm.trans hunknown
  · rintro (rfl | ⟨hdash, hnext, hmem⟩)
    · decide
    · rcases text_cases text with hsource | ⟨word, rfl⟩ | ⟨letter, letters, hletter, rfl⟩
      · obtain rfl := hsource.resolve_right (fun hnot => hnot hdash)
        simp at hmem
      · exact absurd rfl hnext
      · rw [ofText_letters hletter]
        have hmem' : 'h' ∈ letter :: letters := by simpa using hmem
        exact List.mem_map.mpr ⟨'h', hmem', rfl⟩

/-- A text of which nothing is refused is a source or the spelling of a flag. Several letters behind one
dash are refused, because only one letter is that of a flag. -/
theorem known_of_ofText {text : List Char} (hhelp : .help ∉ ofText text)
    (hunknown : .unknown ∉ ofText text) (honce : ∀ flag, (ofText text).count (.flag flag) ≤ 1) :
    IsKnown text := by
  rcases text_cases text with hsource | ⟨word, rfl⟩ | ⟨letter, letters, hletter, rfl⟩
  · exact Or.inl hsource
  · have hword : ofWord word ∈ ofText ('-' :: '-' :: word) := List.mem_singleton_self _
    rcases ofWord_cases word with ⟨flag, -, hspelling⟩ | ⟨h, -⟩ | h
    · exact Or.inr ⟨flag, hspelling⟩
    · exact absurd (h ▸ hword) hhelp
    · exact absurd (h ▸ hword) hunknown
  · rw [ofText_letters hletter] at hhelp hunknown honce
    have hletters : ∀ c ∈ letter :: letters, c = 'i' := by
      intro c hc
      have hmem := List.mem_map_of_mem (f := ofLetter) hc
      rcases ofLetter_cases c with ⟨h, -⟩ | ⟨-, h⟩ | h
      · exact h
      · exact absurd (h ▸ hmem) hhelp
      · exact absurd (h ▸ hmem) hunknown
    obtain rfl := hletters letter List.mem_cons_self
    rcases letters with _ | ⟨next, letters⟩
    · exact Or.inr ⟨.interactive, by decide⟩
    · -- a second letter gives the same flag again
      obtain rfl := hletters next (List.mem_cons_of_mem _ List.mem_cons_self)
      have hcount := honce .interactive
      simp [ofLetter] at hcount

/-- A text that can be read says a flag once, if it is one of its spellings. -/
theorem count_ofText {text : List Char} (h : IsKnown text) (flag : Flag) :
    (ofText text).count (.flag flag) = [text].countP fun t => (t, flag) ∈ spellings := by
  by_cases hflag : (text, flag) ∈ spellings
  · simp [ofText_of_spelling hflag, hflag]
  · have hnot : .flag flag ∉ ofText text := by
      rcases h with hsource | ⟨other, hother⟩
      · simp [ofText_of_isSource hsource]
      · rw [ofText_of_spelling hother, List.mem_singleton]
        rintro ⟨⟩
        exact hflag hother
    simp [List.count_eq_zero_of_not_mem hnot, hflag]

/-- A text that can be read says nothing that is refused. -/
theorem not_mem_ofText {text : List Char} (h : IsKnown text) :
    .help ∉ ofText text ∧ .unknown ∉ ofText text := by
  rcases h with hsource | ⟨flag, hflag⟩
  · simp [ofText_of_isSource hsource]
  · simp [ofText_of_spelling hflag]

/-- The texts in front of the separator are read one by one, and those behind it are sources. -/
theorem ofTexts_eq (arguments : List (List Char)) :
    ofTexts arguments = (leading arguments).flatMap ofText ++ (trailing arguments).map .source := by
  induction arguments with
  | nil => rfl
  | cons text texts ih =>
    by_cases htext : text = separator
    · subst htext
      rfl
    · have hleading : leading (text :: texts) = text :: leading texts := by simp [leading, htext]
      have htrailing : trailing (text :: texts) = trailing texts := by simp [trailing, htext]
      have htext' : ¬ text = "--".toList := htext
      rw [ofTexts, if_neg htext', ih, hleading, htrailing, List.flatMap_cons, List.append_assoc]

theorem filterMap_source?_flatMap (texts : List (List Char)) :
    (texts.flatMap ofText).filterMap source? = texts.filter (IsSource ·) := by
  induction texts with
  | nil => rfl
  | cons text texts ih =>
    rw [List.flatMap_cons, List.filterMap_append, filterMap_source?_ofText, ih, ← List.filter_append,
      List.singleton_append]

theorem count_flatMap {texts : List (List Char)} (h : ∀ text ∈ texts, IsKnown text) (flag : Flag) :
    (texts.flatMap ofText).count (.flag flag) =
      texts.countP fun text => (text, flag) ∈ spellings := by
  induction texts with
  | nil => rfl
  | cons text texts ih =>
    obtain ⟨htext, htexts⟩ := List.forall_mem_cons.mp h
    rw [List.flatMap_cons, List.count_append, count_ofText htext, ih htexts, ← List.countP_append,
      List.singleton_append]

theorem mem_ofTexts_iff {arguments : List (List Char)} {argument : Argument} :
    argument ∈ ofTexts arguments ↔ (∃ text ∈ leading arguments, argument ∈ ofText text) ∨
      ∃ text ∈ trailing arguments, .source text = argument := by
  rw [ofTexts_eq, List.mem_append, List.mem_flatMap, List.mem_map]

end Argument

end Calculator.Terminal
