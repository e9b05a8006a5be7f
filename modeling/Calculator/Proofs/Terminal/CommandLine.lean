import Calculator.Proofs.Terminal.Arguments

/-!
# What a command line says

A command line tells which flags were given and what the source is (`told`), in whatever order. It is well
formed if each argument can be read, no flag stands twice, there is one source at most, and flags and source
go together (`WellFormed`). The options that are taken are those told by a well-formed command line, and any
other is refused (`ofTexts_eq_ok_iff`).

So nothing is left of the order in which the arguments stand, but for the separator, behind which all texts
are sources (`Reorders.ofTexts_eq`).
-/

namespace Calculator.Terminal

/-! ## What is told -/

section

variable (arguments : List (List Char))

/-- The sources, wherever they stand. -/
def sources : List (List Char) := (leading arguments).filter (IsSource ·) ++ trailing arguments

/-- A flag is given. -/
def Gives (flag : Flag) : Prop := ∃ text ∈ leading arguments, (text, flag) ∈ spellings

instance (flag : Flag) : Decidable (Gives arguments flag) :=
  inferInstanceAs (Decidable (∃ text ∈ leading arguments, (text, flag) ∈ spellings))

/-- How often a flag is given. -/
def timesGiven (flag : Flag) : Nat := (leading arguments).countP fun text => (text, flag) ∈ spellings

/-- Help is asked for. -/
def AsksHelp : Prop := ∃ text ∈ leading arguments, IsHelp text

instance : Decidable (AsksHelp arguments) :=
  inferInstanceAs (Decidable (∃ text ∈ leading arguments, IsHelp text))

/-- Each argument can be read: it is a flag, given for the first time, or the only source. -/
structure Readable : Prop where
  known : ∀ text ∈ leading arguments, IsKnown text
  once : ∀ flag, timesGiven arguments flag ≤ 1
  one_source : (sources arguments).length ≤ 1

/-- The arguments can be read and go together. An outline or a list of tokens needs a source, unless the
samples are asked for, and they exclude each other. The samples exclude a source. -/
structure WellFormed : Prop extends Readable arguments where
  has_source : Gives arguments .ast ∨ Gives arguments .tokens →
    sources arguments ≠ [] ∨ Gives arguments .samples
  one_view : ¬ (Gives arguments .ast ∧ Gives arguments .tokens)
  samples_alone : Gives arguments .samples → sources arguments = []

/-- The options that a command line tells. -/
def told : Options where
  ast := decide (Gives arguments .ast)
  tokens := decide (Gives arguments .tokens)
  samples := decide (Gives arguments .samples)
  interactive := decide (Gives arguments .interactive)
  source := (sources arguments).head?

end

theorem has_told (arguments : List (List Char)) (flag : Flag) :
    (told arguments).has flag = decide (Gives arguments flag) := by
  cases flag <;> rfl

/-! ## The whole command line -/

section

variable {arguments : List (List Char)}

theorem filterMap_source?_ofTexts (arguments : List (List Char)) :
    (Argument.ofTexts arguments).filterMap Argument.source? = sources arguments := by
  have htrailing : ((trailing arguments).map Argument.source).filterMap Argument.source? =
      trailing arguments := by
    simp [List.filterMap_map, Function.comp_def, Argument.source?]
  rw [Argument.ofTexts_eq, List.filterMap_append, Argument.filterMap_source?_flatMap, htrailing]
  rfl

/-- Where the texts can be read, their arguments count the spellings. -/
theorem count_ofTexts (h : ∀ text ∈ leading arguments, IsKnown text) (flag : Flag) :
    (Argument.ofTexts arguments).count (.flag flag) = timesGiven arguments flag := by
  have htrailing : .flag flag ∉ (trailing arguments).map Argument.source := by simp
  rw [Argument.ofTexts_eq, List.count_append, Argument.count_flatMap h,
    List.count_eq_zero_of_not_mem htrailing]
  rfl

theorem gives_iff {flag : Flag} : Gives arguments flag ↔ 0 < timesGiven arguments flag := by
  simp [Gives, timesGiven, List.countP_pos_iff]

theorem Readable.toNat_has_told (h : Readable arguments) (flag : Flag) :
    ((told arguments).has flag).toNat = timesGiven arguments flag := by
  have honce := h.once flag
  rw [has_told]
  by_cases hgives : Gives arguments flag
  · have hpos := gives_iff.mp hgives
    rw [decide_eq_true hgives, Bool.toNat_true]
    omega
  · have hzero := mt gives_iff.mpr hgives
    rw [decide_eq_false hgives, Bool.toNat_false]
    omega

theorem Readable.toList_source_told (h : Readable arguments) :
    (told arguments).source.toList = sources arguments := by
  have hone := h.one_source
  show (sources arguments).head?.toList = sources arguments
  generalize sources arguments = texts at hone ⊢
  rcases texts with _ | ⟨source, _ | ⟨_, _⟩⟩
  · rfl
  · rfl
  · simp at hone

/-- What adds up can be read. -/
theorem readable_of_adds {options : Options}
    (h : Options.empty.Adds (Argument.ofTexts arguments) options) : Readable arguments := by
  have hflags : ∀ flag, (Argument.ofTexts arguments).count (.flag flag) ≤ 1 := by
    intro flag
    have hle := Nat.le_of_add_left_le (Nat.le_of_eq (h.flags flag))
    exact Nat.le_trans hle (Bool.toNat_le _)
  have hknown : ∀ text ∈ leading arguments, IsKnown text := by
    intro text htext
    have hsub : (Argument.ofText text).Sublist (Argument.ofTexts arguments) := by
      rw [Argument.ofTexts_eq]
      exact (List.sublist_flatten_of_mem (List.mem_map_of_mem htext)).trans
        (List.sublist_append_left _ _)
    exact Argument.known_of_ofText (fun hmem => h.help (hsub.mem hmem))
      (fun hmem => h.unknown (hsub.mem hmem)) fun flag => Nat.le_trans (hsub.count_le _) (hflags flag)
  refine ⟨hknown, fun flag => ?_, ?_⟩
  · rw [← count_ofTexts hknown]
    exact hflags flag
  · have hsource : (Argument.ofTexts arguments).filterMap Argument.source? = options.source.toList :=
      h.source
    rw [← filterMap_source?_ofTexts, hsource]
    exact Option.length_toList_le

/-- What can be read adds up to what is told. -/
theorem Readable.adds_told (h : Readable arguments) :
    Options.empty.Adds (Argument.ofTexts arguments) (told arguments) := by
  refine ⟨fun flag => ?_, ?_, ?_, ?_⟩
  · have hempty : (Options.empty.has flag).toNat = 0 := by cases flag <;> rfl
    rw [hempty, Nat.zero_add, count_ofTexts h.known, h.toNat_has_told]
  · rw [filterMap_source?_ofTexts, h.toList_source_told]
    rfl
  · rw [Argument.mem_ofTexts_iff]
    rintro (⟨text, htext, hmem⟩ | ⟨_, -, hmem⟩)
    · exact (Argument.not_mem_ofText (h.known text htext)).1 hmem
    · cases hmem
  · rw [Argument.mem_ofTexts_iff]
    rintro (⟨text, htext, hmem⟩ | ⟨_, -, hmem⟩)
    · exact (Argument.not_mem_ofText (h.known text htext)).2 hmem
    · cases hmem

theorem Readable.ofTexts_eq (h : Readable arguments) :
    Options.ofTexts arguments =
      if (told arguments).consistent then .ok (told arguments) else .error .usage := by
  rw [Options.ofTexts, Options.foldlM_take_eq_ok_iff.mpr h.adds_told]
  rfl

/-- The options that are told are consistent if flags and source go together. -/
theorem Readable.wellFormed_iff (h : Readable arguments) :
    WellFormed arguments ↔ (told arguments).consistent = true := by
  have hrules : (told arguments).consistent = true ↔
      (((¬ Gives arguments .ast ∧ ¬ Gives arguments .tokens) ∨ sources arguments ≠ []) ∨
          Gives arguments .samples) ∧
        (¬ Gives arguments .ast ∨ ¬ Gives arguments .tokens) ∧
        (¬ Gives arguments .samples ∨ sources arguments = []) := by
    simp [Options.consistent, told, and_assoc]
  rw [hrules]
  constructor
  · intro hwell
    refine ⟨?_, Decidable.not_and_iff_or_not.mp hwell.one_view,
      Decidable.imp_iff_not_or.mp hwell.samples_alone⟩
    by_cases hview : Gives arguments .ast ∨ Gives arguments .tokens
    · exact (hwell.has_source hview).imp_left Or.inr
    · exact Or.inl (Or.inl (not_or.mp hview))
  · rintro ⟨hsource, hviews, hsamples⟩
    refine ⟨h, fun hview => ?_, Decidable.not_and_iff_or_not.mpr hviews,
      Decidable.imp_iff_not_or.mpr hsamples⟩
    rcases hsource with (⟨hast, htokens⟩ | hsome) | hgiven
    · exact absurd hview (not_or.mpr ⟨hast, htokens⟩)
    · exact Or.inl hsome
    · exact Or.inr hgiven

/-- The options that are taken are those that are told, if the command line is well formed. -/
theorem ofTexts_eq_ok_iff {options : Options} :
    Options.ofTexts arguments = .ok options ↔ WellFormed arguments ∧ options = told arguments := by
  by_cases h : Readable arguments
  · rw [h.ofTexts_eq, h.wellFormed_iff]
    split
    · next hconsistent =>
      exact ⟨fun hok => ⟨hconsistent, (Except.ok.inj hok).symm⟩, fun hand => congrArg _ hand.2.symm⟩
    · next hnot => exact iff_of_false nofun fun hand => hnot hand.1
  · refine iff_of_false (fun hok => ?_) fun hwell => h hwell.1.toReadable
    rw [Options.ofTexts] at hok
    cases hfold : (Argument.ofTexts arguments).foldlM Options.take .empty with
    | ok last => exact h (readable_of_adds (Options.foldlM_take_eq_ok_iff.mp hfold))
    | error refusal =>
      rw [hfold] at hok
      cases hok

/-- A command line that is not well formed is refused as such, unless help is asked for. -/
theorem ofTexts_eq_usage (hwell : ¬ WellFormed arguments) (hhelp : ¬ AsksHelp arguments) :
    Options.ofTexts arguments = .error .usage := by
  cases hfold : (Argument.ofTexts arguments).foldlM Options.take .empty with
  | ok last =>
    have h := readable_of_adds (Options.foldlM_take_eq_ok_iff.mp hfold)
    rw [h.ofTexts_eq, if_neg (mt h.wellFormed_iff.mpr hwell)]
  | error refusal =>
    rw [Options.ofTexts, hfold]
    cases refusal with
    | usage => rfl
    | help =>
      have hmem := Options.help_mem_of_foldlM_take hfold
      rcases Argument.mem_ofTexts_iff.mp hmem with ⟨text, htext, hmem⟩ | ⟨_, -, hmem⟩
      · exact absurd ⟨text, htext, Argument.help_mem_ofText_iff.mp hmem⟩ hhelp
      · cases hmem

end

/-! ## The order of the arguments -/

section

variable {arguments arguments' : List (List Char)}

/-- Two command lines that differ in the order of the arguments in front of the separator. -/
structure Reorders (arguments arguments' : List (List Char)) : Prop where
  leading : (leading arguments).Perm (leading arguments')
  trailing : trailing arguments = trailing arguments'

theorem reorders_append {before before' : List (List Char)} (hsep : separator ∉ before)
    (h : before.Perm before') (rest : List (List Char)) :
    Reorders (before ++ rest) (before' ++ rest) := by
  have hbefore : ∀ text ∈ before, decide (text ≠ separator) = true := by
    intro text htext
    simpa using ne_of_mem_of_not_mem htext hsep
  have hbefore' : ∀ text ∈ before', decide (text ≠ separator) = true :=
    fun text htext => hbefore text (h.mem_iff.mpr htext)
  constructor
  · rw [Terminal.leading, Terminal.leading, List.takeWhile_append_of_pos hbefore,
      List.takeWhile_append_of_pos hbefore']
    exact h.append_right _
  · rw [Terminal.trailing, Terminal.trailing, List.dropWhile_append_of_pos hbefore,
      List.dropWhile_append_of_pos hbefore']

namespace Reorders

variable (h : Reorders arguments arguments')

include h

theorem symm : Reorders arguments' arguments := ⟨h.leading.symm, h.trailing.symm⟩

theorem sources_perm : (sources arguments).Perm (sources arguments') := by
  rw [sources, sources, h.trailing]
  exact (h.leading.filter _).append_right _

theorem sources_eq_nil_iff : sources arguments = [] ↔ sources arguments' = [] := by
  rw [← List.length_eq_zero_iff, h.sources_perm.length_eq, List.length_eq_zero_iff]

theorem gives_iff (flag : Flag) : Gives arguments flag ↔ Gives arguments' flag := by
  simp only [Gives, h.leading.mem_iff]

theorem asksHelp_iff : AsksHelp arguments ↔ AsksHelp arguments' := by
  simp only [AsksHelp, h.leading.mem_iff]

theorem wellFormed (hwell : WellFormed arguments) : WellFormed arguments' where
  known text htext := hwell.known text (h.leading.mem_iff.mpr htext)
  once flag := by
    rw [timesGiven, ← h.leading.countP_eq]
    exact hwell.once flag
  one_source := by
    rw [← h.sources_perm.length_eq]
    exact hwell.one_source
  has_source hview := by
    rw [← h.gives_iff, ← h.gives_iff] at hview
    rw [← h.gives_iff, Ne, ← h.sources_eq_nil_iff]
    exact hwell.has_source hview
  one_view := by
    rw [← h.gives_iff, ← h.gives_iff]
    exact hwell.one_view
  samples_alone hsamples := by
    rw [← h.sources_eq_nil_iff]
    exact hwell.samples_alone ((h.gives_iff _).mpr hsamples)

/-- As there is one source at most, it is told in any order. -/
theorem told_eq (hwell : WellFormed arguments) : told arguments = told arguments' := by
  refine Options.eq_of_has (fun flag => ?_) ?_
  · rw [has_told, has_told, decide_eq_decide, h.gives_iff]
  · show (sources arguments).head? = (sources arguments').head?
    have hone := hwell.one_source
    have hperm := h.sources_perm
    generalize sources arguments = texts at hone hperm ⊢
    rcases texts with _ | ⟨source, _ | ⟨_, _⟩⟩
    · rw [hperm.nil_eq]
    · rw [List.perm_singleton.mp hperm.symm]
    · simp at hone

/-- The order of the arguments in front of the separator does not matter, unless help is asked for. -/
theorem ofTexts_eq (hhelp : ¬ AsksHelp arguments) :
    Options.ofTexts arguments = Options.ofTexts arguments' := by
  by_cases hwell : WellFormed arguments
  · rw [ofTexts_eq_ok_iff.mpr ⟨hwell, (h.told_eq hwell).symm⟩,
      ofTexts_eq_ok_iff.mpr ⟨h.wellFormed hwell, rfl⟩]
  · rw [ofTexts_eq_usage hwell hhelp,
      ofTexts_eq_usage (mt h.symm.wellFormed hwell) (mt h.asksHelp_iff.mpr hhelp)]

end Reorders

end

end Calculator.Terminal
