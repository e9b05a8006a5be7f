import Calculator.Proofs.Token.Tiling

/-!
# The stream of a text is exact

A text can go wrong in two ways (`Offence`): at a character that belongs to no token, and at a number
that is no word. A text without an offence is `Legible`. Its stream tiles it to the end; any other
stream tiles its text up to the leftmost offence and ends with it (`items_exact`).

That the offence is the leftmost is a consequence of the tiling: an offence inside a tiled stretch would
have to start on the characters of a token, and those are no offence (`Tiles.offence_behind`).
-/

namespace Calculator

open Text

/-! ## Offences -/

/-- What can be wrong with a text, in the words it is reported in. -/
inductive Offence (source : List Char) : Diagnostic → Prop where
  | character {left right : List Char} {c : Char} (hsource : source = left ++ c :: right)
      (hblank : isBlank c = false) (hdigit : c.isDigit = false) (hmark : c ∉ "+-*/()".toList) :
      Offence source
        (.lexical ⟨byteLength left, byteLength left + c.utf8Size⟩
          ("Unexpected character: '" ++ c.toString ++ "'"))
  | number {left digits right : List Char} (hsource : source = left ++ digits ++ right)
      (hrun : DigitRun left digits right) (hlarge : 9223372036854775807 < readNumeral digits) :
      Offence source
        (.lexical ⟨byteLength left, byteLength (left ++ digits)⟩
          ("Invalid integer: " ++ String.ofList digits))

/-- An offence with no other to the left of it. -/
def LeftmostOffence (source : List Char) (diagnostic : Diagnostic) : Prop :=
  Offence source diagnostic ∧
    ∀ other, Offence source other → diagnostic.span.start ≤ other.span.start

/-- Every character of a text is a blank, a digit or a token of its own, and every number is a word. -/
structure Legible (source : List Char) : Prop where
  characters : ∀ c ∈ source, isBlank c = true ∨ c.isDigit = true ∨ c ∈ "+-*/()".toList
  numbers : ∀ left digits right, source = left ++ digits ++ right → DigitRun left digits right →
    readNumeral digits ≤ 9223372036854775807

theorem mem_symbols_iff {c : Char} :
    c ∈ "+-*/()".toList ↔ ∃ kind, Scanner.markKind? c = some kind := by
  have hsymbols : "+-*/()".toList = marks.map Prod.fst := rfl
  simp only [hsymbols, List.mem_map, Prod.exists, mem_marks_iff, exists_and_right, exists_eq_right]

theorem legible_iff_no_offence {source : List Char} :
    Legible source ↔ ∀ diagnostic, ¬ Offence source diagnostic := by
  constructor
  · rintro ⟨hcharacters, hnumbers⟩ diagnostic hoffence
    cases hoffence with
    | @character left right c hsource hblank hdigit hmark =>
      rcases hcharacters c (by simp [hsource]) with h | h | h
      · exact absurd h (by simp [hblank])
      · exact absurd h (by simp [hdigit])
      · exact hmark h
    | number hsource hrun hlarge =>
      have hle := hnumbers _ _ _ hsource hrun
      omega
  · intro h
    refine ⟨fun c hc => ?_, fun left digits right hsource hrun => ?_⟩
    · obtain ⟨left, right, hsource⟩ := List.append_of_mem hc
      by_contra hnone
      simp only [not_or, Bool.not_eq_true] at hnone
      exact h _ (.character hsource hnone.1 hnone.2.1 hnone.2.2)
    · by_contra hlarge
      exact h _ (.number hsource hrun (by omega))

theorem Offence.start_lt {source : List Char} {diagnostic : Diagnostic}
    (h : Offence source diagnostic) : diagnostic.span.start < byteLength source := by
  cases h with
  | @character left right c hsource =>
    have hc := c.utf8Size_pos
    simp only [Diagnostic.lexical, hsource, byteLength_append, byteLength_cons]
    omega
  | @number left digits right hsource hrun =>
    have hpos := byteLength_pos hrun.nonempty
    simp only [Diagnostic.lexical, hsource, byteLength_append]
    omega

/-! ## No offence among tokens -/

/-- Two maximal runs of digits of a text, one of which starts in the other, are the same. -/
theorem Text.DigitRun.unique {left digits right left' digits' right' : List Char}
    (h : DigitRun left digits right) (h' : DigitRun left' digits' right')
    (hsame : left' ++ digits' ++ right' = left ++ digits ++ right)
    (hstart : byteLength left' ≤ byteLength left)
    (hstop : byteLength left < byteLength (left' ++ digits')) : digits = digits' := by
  obtain ⟨first, others, rfl⟩ := List.exists_cons_of_ne_nil h.nonempty
  rw [List.append_assoc left, List.cons_append] at hsame
  obtain ⟨inside, behind, rfl, rfl, hrest⟩ := exists_of_byteLength_lt hsame hstart hstop
  -- a digit of the one run in front of the other would make the other longer
  obtain rfl : inside = [] := by
    rw [← List.getLast?_eq_none_iff]
    cases hlast : inside.getLast? with
    | none => rfl
    | some c =>
      have hdigit := h'.digits c (List.mem_append_left _ (List.mem_of_getLast? hlast))
      rw [h.starts c (by simp [List.getLast?_append, hlast])] at hdigit
      cases hdigit
  obtain ⟨htake, -⟩ := Scanner.takeWhile_append_of_head? h.digits h.stops
  obtain ⟨htake', -⟩ := Scanner.takeWhile_append_of_head? h'.digits h'.stops
  rw [List.nil_append] at htake' ⊢
  rw [← htake, ← htake', List.cons_append, List.cons_append, hrest]

/-- An offence that does not start before a tiled stretch starts behind it. -/
theorem Tiles.offence_behind {source : List Char} {tokens : List Token} {start stop : Nat}
    {diagnostic : Diagnostic} (h : Tiles source start tokens stop)
    (hoffence : Offence source diagnostic) (hstart : start ≤ diagnostic.span.start) :
    stop ≤ diagnostic.span.start := by
  by_contra hbefore
  -- the first character of an offence is no blank, so a token lies on it
  have hexists : ∀ left c right, source = left ++ c :: right →
      diagnostic.span.start = byteLength left → isBlank c = false →
      ∃ token ∈ tokens, ∃ before after, CutAt source token.span before token.lexeme after ∧
        token.Fills before after ∧ byteLength before ≤ byteLength left ∧
        byteLength left < byteLength (before ++ token.lexeme) ∧ c ∈ token.lexeme := by
    intro left c right hsource hplace hblank
    by_contra hnone
    have hall := h.blank left c right hsource (by omega) (by omega) ?_
    · simp [hblank] at hall
    · rintro token htoken ⟨hfrom, hto⟩
      obtain ⟨before, after, hcut, hfills⟩ := h.fills token htoken
      obtain ⟨hsame, hbegin, hend⟩ := hcut
      rw [← hbegin] at hfrom
      rw [← hend] at hto
      obtain ⟨inside, behind, -, hlexeme, -⟩ :=
        exists_of_byteLength_lt (hsame.symm.trans hsource) hfrom hto
      exact hnone ⟨token, htoken, before, after, ⟨hsame, hbegin, hend⟩, hfills, hfrom, hto,
        by simp [hlexeme]⟩
  cases hoffence with
  | @character left right c hsource hblank hdigit hmark =>
    obtain ⟨token, -, before, after, -, hfills, -, -, hmem⟩ := hexists left c right hsource rfl hblank
    cases hfills with
    | number hrun => simp [hrun.digits c hmem] at hdigit
    | @mark d kind hkind =>
      obtain rfl : c = d := by simpa [Token.mark] using hmem
      exact hmark (mem_symbols_iff.mpr ⟨kind, mem_marks_iff.mp hkind⟩)
  | @number left digits right hsource hrun hlarge =>
    obtain ⟨first, others, hdigits⟩ := List.exists_cons_of_ne_nil hrun.nonempty
    have hfirst : first.isDigit = true := hrun.digits first (by simp [hdigits])
    obtain ⟨token, -, before, after, hcut, hfills, hfrom, hto, hmem⟩ :=
      hexists left first (others ++ right) (by simp [hsource, hdigits]) rfl
        (isBlank_eq_false_of_isDigit hfirst)
    cases hfills with
    | @number digits' value hrun' hvalue =>
      obtain rfl := hrun.unique hrun' (hcut.1.symm.trans hsource) hfrom hto
      have hmax := value.le_max
      omega
    | @mark d kind hkind =>
      obtain rfl : first = d := by simpa [Token.mark] using hmem
      rw [(Scanner.mark_of_markKind? (mem_marks_iff.mp hkind)).1] at hfirst
      cases hfirst

/-! ## The last item -/

/-- Where an item lies. -/
def Item.start : Item → Nat
  | .ok token => token.span.start
  | .error fault => fault.span.start

namespace Scanner

/-- What stands in front of a scanner that has no more tokens to read. -/
theorem exists_last {s : Scanner} (hlast : s.scan.1.isLast = true) :
    ∃ gap rest, s.rest = gap ++ rest ∧ (∀ c ∈ gap, isBlank c = true) ∧
      ((rest = [] ∧ s.scan.1 = .ok (.endOfInput (s.position + byteLength gap))) ∨
        (∃ c more, rest = c :: more ∧ isBlank c = false ∧ c.isDigit = false ∧ markKind? c = none ∧
          s.scan.1 = .error ⟨.unexpectedCharacter c,
            ⟨s.position + byteLength gap, s.position + byteLength gap + c.utf8Size⟩⟩) ∨
        ∃ first others more, rest = first :: others ++ more ∧
          (∀ c ∈ first :: others, c.isDigit = true) ∧ NoDigit more ∧
          Word.ofInt? (readNumeral (first :: others)) = none ∧
          s.scan.1 = .error ⟨.numberTooLarge (first :: others),
            ⟨s.position + byteLength gap,
              s.position + byteLength gap + byteLength (first :: others)⟩⟩) := by
  have hgap : ∀ c ∈ s.rest.takeWhile isBlank, isBlank c = true := fun c hc =>
    List.mem_takeWhile_imp hc
  have hhead : ∀ c, (s.rest.dropWhile isBlank).head? = some c → isBlank c = false := fun c hc =>
    head?_dropWhile hc
  have hsplit : s.rest.takeWhile isBlank ++ s.rest.dropWhile isBlank = s.rest :=
    List.takeWhile_append_dropWhile
  unfold scan skip at hlast ⊢
  -- as for a token, only the two parts of the text matter
  generalize s.rest.takeWhile isBlank = gap at *
  generalize s.rest.dropWhile isBlank = text at *
  refine ⟨gap, text, hsplit.symm, hgap, ?_⟩
  unfold Scanner.token at hlast ⊢
  cases text with
  | nil => exact Or.inl ⟨rfl, rfl⟩
  | cons c rest =>
    dsimp only at hlast ⊢
    by_cases hc : c.isDigit = true
    · have htake : (c :: rest).takeWhile Char.isDigit = c :: rest.takeWhile Char.isDigit :=
        List.takeWhile_cons_of_pos hc
      rw [if_pos hc] at hlast ⊢
      simp only [Scanner.number, numberItem, skip, htake] at hlast ⊢
      cases hvalue : Word.ofInt? (readNumeral (c :: rest.takeWhile Char.isDigit)) with
      | some value => simp [hvalue, Item.isLast, Token.integer] at hlast
      | none =>
        refine Or.inr (Or.inr ⟨c, rest.takeWhile Char.isDigit, rest.dropWhile Char.isDigit, ?_, ?_,
          fun d hd => head?_dropWhile hd, hvalue, rfl⟩)
        · rw [List.cons_append, List.takeWhile_append_dropWhile]
        · exact List.forall_mem_cons.mpr ⟨hc, fun d hd => List.mem_takeWhile_imp hd⟩
    · rw [if_neg hc] at hlast ⊢
      cases hkind : markKind? c with
      | some kind =>
        have hmore := (mark_of_markKind? hkind).2.2.2
        simp [hkind, Item.isLast, Token.mark, hmore] at hlast
      | none =>
        exact Or.inr (Or.inl ⟨c, rest, rfl, hhead c rfl, by simpa using hc, hkind, rfl⟩)

/-- A scanner that stands in front of the last item of a stream has only blanks in front of it, or
blanks and an offence. -/
theorem Behind.scan_last {source left : List Char} {s : Scanner} (h : Behind source left s)
    (hlast : s.scan.1.isLast = true) :
    ∃ gap right, s.rest = gap ++ right ∧ (∀ c ∈ gap, isBlank c = true) ∧
      s.scan.1.start = byteLength (left ++ gap) ∧
      (s.scan.1 = .ok (.endOfInput (byteLength source)) ∨
        ∃ fault, s.scan.1 = .error fault ∧ Offence source fault.diagnostic) := by
  obtain ⟨gap, right, hrest, hgap, hcases⟩ := exists_last hlast
  have hsource : source = left ++ gap ++ right := by rw [h.source_eq, hrest, List.append_assoc]
  rw [h.position_eq, ← byteLength_append] at hcases
  refine ⟨gap, right, hrest, hgap, ?_⟩
  rcases hcases with ⟨rfl, hitem⟩ | ⟨c, more, rfl, hblank, hdigit, hmark, hitem⟩ |
    ⟨first, others, more, rfl, hdigits, hno, hlarge, hitem⟩
  · refine ⟨by rw [hitem]; rfl, Or.inl ?_⟩
    rw [hitem, hsource, List.append_nil]
  · refine ⟨by rw [hitem]; rfl, Or.inr ⟨_, hitem, .character hsource hblank hdigit ?_⟩⟩
    intro hmem
    obtain ⟨kind, hkind⟩ := mem_symbols_iff.mp hmem
    simp [hmark] at hkind
  · have hstarts := h.starts hrest hgap (hdigits first List.mem_cons_self)
    have hrun : DigitRun (left ++ gap) (first :: others) more :=
      ⟨List.cons_ne_nil _ _, hdigits, hstarts, hno⟩
    refine ⟨by rw [hitem]; rfl, Or.inr ⟨_, hitem, ?_⟩⟩
    rw [← byteLength_append]
    refine .number (by rw [hsource, List.append_assoc (left ++ gap)]) hrun ?_
    have hout := Word.ofInt?_eq_none_iff.mp hlarge
    omega

end Scanner

/-- The stream of a text tiles it with its tokens. It ends with the end of the input exactly if the
text is legible, and otherwise with the leftmost offence. -/
theorem items_exact (source : List Char) :
    ∃ tokens last, (Scanner.ofSource source).Streams tokens last ∧
      Tiles source 0 tokens last.start ∧
      (last = .ok (.endOfInput (byteLength source)) ↔ Legible source) ∧
      (¬ Legible source → ∃ fault, last = .error fault ∧ LeftmostOffence source fault.diagnostic) := by
  obtain ⟨tokens, s, hreads, hlast⟩ := Scanner.exists_reads (Scanner.ofSource source)
  obtain ⟨left, hbehind, -, htiles⟩ := (Scanner.behind_ofSource source).tiles hreads
  obtain ⟨gap, right, hrest, hgap, hstart, hcases⟩ := hbehind.scan_last hlast
  have htiled : Tiles source 0 tokens s.scan.1.start := hstart ▸ htiles gap right hrest hgap
  have hstreams : (Scanner.ofSource source).Streams tokens s.scan.1 :=
    (Scanner.streams_iff rfl).mpr ⟨s, hreads, rfl, hlast⟩
  refine ⟨tokens, s.scan.1, hstreams, htiled, ?_⟩
  rcases hcases with hitem | ⟨fault, hitem, hoffence⟩
  · have hlegible : Legible source := by
      refine legible_iff_no_offence.mpr fun diagnostic hoffence => ?_
      have hbehind := htiled.offence_behind hoffence (Nat.zero_le _)
      have hinside := hoffence.start_lt
      rw [hitem] at hbehind
      exact absurd hinside (Nat.not_lt.mpr hbehind)
    exact ⟨⟨fun _ => hlegible, fun _ => hitem⟩, fun hnot => absurd hlegible hnot⟩
  · have hnot : ¬ Legible source := fun h => legible_iff_no_offence.mp h _ hoffence
    have hleftmost : LeftmostOffence source fault.diagnostic := by
      refine ⟨hoffence, fun other hother => ?_⟩
      have hbehind := htiled.offence_behind hother (Nat.zero_le _)
      rwa [hitem] at hbehind
    refine ⟨⟨fun hend => ?_, fun h => absurd h hnot⟩, fun _ => ⟨fault, hitem, hleftmost⟩⟩
    rw [hitem] at hend
    cases hend

/-- Leading zeros and wide blanks are read, and of two offences the left one ends the stream. -/
example : (Scanner.ofSource "\u3000007+9223372036854775808@".toList).items.1 =
    [.ok (.integer ⟨7, by decide, by decide⟩ "007".toList ⟨3, 6⟩),
      .ok (.mark (.operator .add) '+' 6),
      .error ⟨.numberTooLarge "9223372036854775808".toList, ⟨7, 26⟩⟩] := by
  decide +kernel

end Calculator
