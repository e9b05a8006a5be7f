import Calculator.Proofs.Parse.Exactness
import Calculator.Proofs.Parse.Likeness
import Calculator.Proofs.Token.Offence

/-!
# Faults point into the text

Every fault that a text can be answered with is blamed on a place of that text: it starts in front of a
character or at the end, and it is not empty (`Span.PointsInto`). It stops in front of a character too,
unless it is the one byte behind a token, where something is missing. That byte may be the first of a
wide blank, or lie past the end.

Counted in characters, such a span starts behind the characters in front of it and is as long as there
are characters in it, but at least one place long (`Span.PointsInto.chars_eq`).

Where faults are blamed is known from single items by the law that holds of texts that read alike, here
of a text and itself (`Scanner.within`).
-/

namespace Calculator

namespace Text

/-! ## Boundaries -/

/-- An offset in front of a character of a text, or at its end. -/
def Boundary (source : List Char) (offset : Nat) : Prop :=
  ∃ left right, source = left ++ right ∧ byteLength left = offset

theorem Boundary.le {source : List Char} {offset : Nat} (h : Boundary source offset) :
    offset ≤ byteLength source := by
  obtain ⟨left, right, rfl, rfl⟩ := h
  rw [byteLength_append]
  exact Nat.le_add_right _ _

theorem boundary_byteLength (source : List Char) : Boundary source (byteLength source) :=
  ⟨source, [], by simp, rfl⟩

/-! ## The places of characters -/

/-- The spans of the characters of a text that starts at an offset. -/
def charSpans (offset : Nat) : List Char → List Span
  | [] => []
  | c :: text => ⟨offset, offset + c.utf8Size⟩ :: charSpans (offset + c.utf8Size) text

/-- How many characters of a text end at an offset or before it. -/
def charsBefore (source : List Char) (offset : Nat) : Nat :=
  (charSpans 0 source).countP fun a => a.stop ≤ offset

/-- How many characters of a text lie wholly inside a span, as far as the text goes. -/
def charsInside (source : List Char) (span : Span) : Nat :=
  (charSpans 0 source).countP fun a =>
    span.start ≤ a.start ∧ a.stop ≤ min span.stop (byteLength source)

theorem charSpans_append (offset : Nat) (left right : List Char) :
    charSpans offset (left ++ right) =
      charSpans offset left ++ charSpans (offset + byteLength left) right := by
  induction left generalizing offset with
  | nil => simp [charSpans]
  | cons c left ih =>
    rw [List.cons_append, charSpans, ih, byteLength_cons, Nat.add_assoc]
    rfl

@[simp] theorem length_charSpans (offset : Nat) (text : List Char) :
    (charSpans offset text).length = text.length := by
  induction text generalizing offset with
  | nil => rfl
  | cons c text ih => rw [charSpans, List.length_cons, ih, List.length_cons]

/-- Every character lies within its text. -/
theorem charSpans_within {offset : Nat} {text : List Char} {a : Span} (h : a ∈ charSpans offset text) :
    offset ≤ a.start ∧ a.start < a.stop ∧ a.stop ≤ offset + byteLength text := by
  induction text generalizing offset with
  | nil => cases h
  | cons c text ih =>
    have hc := c.utf8Size_pos
    rw [byteLength_cons]
    rcases List.mem_cons.mp h with rfl | hmem
    · dsimp only
      omega
    · have hrest := ih hmem
      omega

/-- No character ends before the first one does. -/
theorem le_stop_of_mem_charSpans {offset : Nat} {text : List Char} {a : Span}
    (h : a ∈ charSpans offset text) {c : Char} (hc : text.head? = some c) :
    offset + c.utf8Size ≤ a.stop := by
  cases text with
  | nil => cases hc
  | cons d text =>
    obtain rfl := Option.some.inj hc
    rcases List.mem_cons.mp h with rfl | hmem
    · exact Nat.le_refl _
    · have hrest := charSpans_within hmem
      omega

theorem charsBefore_eq (left right : List Char) :
    charsBefore (left ++ right) (byteLength left) = left.length := by
  have hleft : ∀ a ∈ charSpans 0 left, decide (a.stop ≤ byteLength left) = true := by
    intro a ha
    have hwithin := charSpans_within ha
    simpa using hwithin.2.2
  have hright : ∀ a ∈ charSpans (0 + byteLength left) right,
      ¬ decide (a.stop ≤ byteLength left) = true := by
    intro a ha
    have hwithin := charSpans_within ha
    simp only [decide_eq_true_eq]
    omega
  rw [charsBefore, charSpans_append, List.countP_append, List.countP_eq_length.mpr hleft,
    List.countP_eq_zero.mpr hright, length_charSpans]
  rfl

/-- The characters inside a span that starts at a boundary are those up to the last boundary at which
it has not stopped. -/
theorem charsInside_eq {left middle right : List Char} {span : Span}
    (hstart : byteLength left = span.start) (hle : byteLength (left ++ middle) ≤ span.stop)
    (hlast : ∀ c, right.head? = some c → span.stop < byteLength (left ++ middle) + c.utf8Size) :
    charsInside (left ++ middle ++ right) span = middle.length := by
  have hlength : byteLength (left ++ middle) ≤ byteLength (left ++ middle ++ right) := by
    rw [byteLength_append (left ++ middle)]
    exact Nat.le_add_right _ _
  unfold charsInside
  generalize byteLength (left ++ middle ++ right) = length at *
  rw [byteLength_append] at hle hlast hlength
  have hbefore : ∀ a ∈ charSpans 0 left,
      ¬ decide (span.start ≤ a.start ∧ a.stop ≤ min span.stop length) = true := by
    intro a ha
    have hwithin := charSpans_within ha
    simp only [decide_eq_true_eq, not_and]
    omega
  have hinside : ∀ a ∈ charSpans (0 + byteLength left) middle,
      decide (span.start ≤ a.start ∧ a.stop ≤ min span.stop length) = true := by
    intro a ha
    have hwithin := charSpans_within ha
    simp only [decide_eq_true_eq]
    omega
  have hbehind : ∀ a ∈ charSpans (0 + byteLength (left ++ middle)) right,
      ¬ decide (span.start ≤ a.start ∧ a.stop ≤ min span.stop length) = true := by
    intro a ha
    rw [byteLength_append] at ha
    simp only [decide_eq_true_eq, not_and]
    cases right with
    | nil => cases ha
    | cons c right =>
      have hfirst := le_stop_of_mem_charSpans ha (c := c) rfl
      have hstop := hlast c rfl
      omega
  rw [charSpans_append, charSpans_append, List.countP_append, List.countP_append,
    List.countP_eq_zero.mpr hbefore, List.countP_eq_length.mpr hinside,
    List.countP_eq_zero.mpr hbehind, length_charSpans]
  omega

end Text

open Text

/-! ## Spans that point into a text -/

namespace Span

/-- A span that holds some of the characters of a text and nothing else. -/
structure Inside (source : List Char) (a : Span) : Prop where
  starts : Boundary source a.start
  stops : Boundary source a.stop
  nonempty : a.start < a.stop

/-- A span that starts in a text or at its end and is not empty. It stops behind a character, unless it
is a single byte long. -/
structure PointsInto (source : List Char) (a : Span) : Prop where
  starts : Boundary source a.start
  nonempty : a.start < a.stop
  stops : Boundary source a.stop ∨ a.stop = a.start + 1

variable {source : List Char} {a b : Span}

theorem Inside.pointsInto (h : a.Inside source) : a.PointsInto source :=
  ⟨h.starts, h.nonempty, Or.inl h.stops⟩

theorem Inside.cover (ha : a.Inside source) (hb : b.Inside source) : (a.cover b).Inside source where
  starts := by
    rcases Nat.le_total a.start b.start with hle | hle
    · simpa only [Span.cover, Nat.min_eq_left hle] using ha.starts
    · simpa only [Span.cover, Nat.min_eq_right hle] using hb.starts
  stops := by
    rcases Nat.le_total a.stop b.stop with hle | hle
    · simpa only [Span.cover, Nat.max_eq_right hle] using hb.stops
    · simpa only [Span.cover, Nat.max_eq_left hle] using ha.stops
  nonempty := by
    have hlt := ha.nonempty
    simp only [Span.cover]
    omega

theorem pointsInto_single {offset : Nat} (h : Boundary source offset) :
    (single offset).PointsInto source :=
  ⟨h, Nat.lt_succ_self offset, Or.inr rfl⟩

theorem inside_of_cutAt {left middle right : List Char} (h : CutAt source a left middle right)
    (hne : middle ≠ []) : a.Inside source := by
  obtain ⟨hsource, hstart, hstop⟩ := h
  refine ⟨⟨left, middle ++ right, by rw [hsource, List.append_assoc], hstart⟩,
    ⟨left ++ middle, right, hsource, hstop⟩, ?_⟩
  have hpos := byteLength_pos hne
  rw [byteLength_append] at hstop
  omega

/-- In front of the byte behind a boundary there is no whole character besides one of a single byte, and
it counts as one place in any case. -/
theorem charOffset_one (text : List Char) : charOffset text 1 = 1 := by
  cases text with
  | nil => rfl
  | cons c text =>
    have hc := c.utf8Size_pos
    unfold charOffset
    split
    · rfl
    · have hone : 1 - c.utf8Size = 0 := by omega
      rw [hone, charOffset_zero]

/-- Counted in characters, the span of a fault starts behind the characters in front of it. It is as
long as there are characters in it, and one place long if there are none. -/
theorem PointsInto.chars_eq (h : a.PointsInto source) :
    a.chars source =
      ⟨charsBefore source a.start,
        charsBefore source a.start + max 1 (charsInside source a)⟩ := by
  obtain ⟨⟨left, right, rfl, hstart⟩, hnonempty, hstops⟩ := h
  have hbefore : charOffset (left ++ right) a.start = charsBefore (left ++ right) a.start := by
    rw [← hstart, charOffset_byteLength, charsBefore_eq]
  suffices hstop : charOffset (left ++ right) a.stop =
      charsBefore (left ++ right) a.start + max 1 (charsInside (left ++ right) a) by
    rw [chars, hbefore, hstop]
  rw [← hstart, charsBefore_eq]
  by_cases hboundary : Boundary (left ++ right) a.stop
  · obtain ⟨left', right', hsame, hstop⟩ := hboundary
    obtain ⟨middle, rfl, rfl⟩ := exists_middle_of_byteLength_le hsame (by omega)
    have hne : middle ≠ [] := by
      rintro rfl
      rw [List.append_nil] at hstop
      omega
    have hpos := List.length_pos_iff.mpr hne
    rw [← List.append_assoc, charsInside_eq hstart (Nat.le_of_eq hstop) ?_, ← hstop,
      charOffset_byteLength, List.length_append]
    · omega
    · intro c _
      have hc := c.utf8Size_pos
      omega
  · -- one byte that is no character: a part of one, or the byte behind the text
    have hone : a.stop = a.start + 1 := hstops.resolve_left hboundary
    have hnone : charsInside (left ++ [] ++ right) a = 0 := by
      refine charsInside_eq hstart (by rw [List.append_nil]; omega) fun c hc => ?_
      rw [List.append_nil]
      by_contra hshort
      obtain ⟨more, rfl⟩ := List.head?_eq_some_iff.mp hc
      have hsize := c.utf8Size_pos
      refine hboundary ⟨left ++ [c], more, by simp, ?_⟩
      simp only [byteLength_append, byteLength_cons, byteLength_nil]
      omega
    rw [List.append_nil] at hnone
    rw [hnone, hone, ← hstart, charOffset_append, charOffset_one]
    rfl

end Span

/-! ## Where faults are blamed -/

theorem Offence.inside {source : List Char} {diagnostic : Diagnostic} (h : Offence source diagnostic) :
    diagnostic.span.Inside source := by
  cases h with
  | @character left right c hsource =>
    have hcut : CutAt source ⟨byteLength left, byteLength left + c.utf8Size⟩ left [c] right :=
      ⟨by simp [hsource], rfl, by simp⟩
    exact Span.inside_of_cutAt hcut (List.cons_ne_nil _ _)
  | number hsource hrun => exact Span.inside_of_cutAt ⟨hsource, rfl, rfl⟩ hrun.nonempty

namespace Scanner

theorem Behind.skip_blanks {source left : List Char} {s : Scanner} (h : Behind source left s) :
    Behind source (left ++ s.rest.takeWhile isBlank) (s.skip isBlank) where
  source_eq := by
    rw [skip, List.append_assoc, List.takeWhile_append_dropWhile]
    exact h.source_eq
  position_eq := by rw [skip, h.position_eq, byteLength_append]
  apart := by
    intro c hc hdigit
    cases hgap : s.rest.takeWhile isBlank with
    | nil =>
      have hrest : s.rest.dropWhile isBlank = s.rest := by
        have hsplit : s.rest.takeWhile isBlank ++ s.rest.dropWhile isBlank = s.rest :=
          List.takeWhile_append_dropWhile
        rwa [hgap, List.nil_append] at hsplit
      rw [hgap, List.append_nil] at hc
      rw [skip, hrest]
      exact h.apart c hc hdigit
    | cons blank more =>
      have hne : s.rest.takeWhile isBlank ≠ [] := by rw [hgap]; exact List.cons_ne_nil _ _
      rw [List.getLast?_append, List.getLast?_eq_some_getLast hne] at hc
      obtain rfl := Option.some.inj hc
      have hblank := List.mem_takeWhile_imp (List.getLast_mem hne)
      rw [isDigit_eq_false_of_isBlank hblank] at hdigit
      cases hdigit

/-- However a scan ends, the scanner stands behind some of the text, and not in the middle of a
number. -/
theorem Behind.scan {source left : List Char} {s : Scanner} (h : Behind source left s) :
    ∃ left', Behind source left' s.scan.2 := by
  have hskip := h.skip_blanks
  rw [Scanner.scan]
  generalize left ++ s.rest.takeWhile isBlank = left at *
  generalize s.skip isBlank = s at *
  unfold Scanner.token
  split
  · exact ⟨left, hskip⟩
  · next c rest hrest =>
    split
    · refine ⟨left ++ s.rest.takeWhile Char.isDigit, ?_, ?_, fun _ _ _ d hd => head?_dropWhile hd⟩
      · rw [Scanner.number, skip, List.append_assoc, List.takeWhile_append_dropWhile]
        exact hskip.source_eq
      · rw [Scanner.number, skip, hskip.position_eq, byteLength_append]
    · split
      · next kind hkind =>
        refine ⟨left ++ [c], ?_, ?_, ?_⟩
        · rw [hskip.source_eq, hrest, List.append_assoc]
          rfl
        · simp [hskip.position_eq]
        · intro last hlast hdigit
          obtain rfl : c = last := by simpa using hlast
          rw [(mark_of_markKind? hkind).1] at hdigit
          cases hdigit
      · exact ⟨left, hskip⟩

/-- What a scanner in a text finds lies in the text. -/
theorem Behind.scan_places {source left : List Char} {s : Scanner} (h : Behind source left s) :
    (∃ token, s.scan.1 = .ok token ∧ token.span.PointsInto source ∧
        (token.kind ≠ .endOfInput → token.span.Inside source)) ∨
      ∃ fault, s.scan.1 = .error fault ∧ fault.span.Inside source := by
  cases hlast : s.scan.1.isLast with
  | true =>
    obtain ⟨-, -, -, -, -, hitem | ⟨fault, hitem, hoffence⟩⟩ := h.scan_last hlast
    · refine Or.inl ⟨_, hitem, Span.pointsInto_single (boundary_byteLength source), fun hmore => ?_⟩
      exact absurd rfl hmore
    · exact Or.inr ⟨fault, hitem, hoffence.inside⟩
  | false =>
    cases hitem : s.scan.1 with
    | error fault => simp [hitem, Item.isLast] at hlast
    | ok token =>
      have hmore : token.kind ≠ .endOfInput := by simpa [hitem, Item.isLast] using hlast
      obtain ⟨gap, -, hfills, hbehind⟩ := h.step (Prod.ext hitem rfl) hmore
      obtain ⟨hstart, hstop⟩ := hfills.places
      have hinside : token.span.Inside source :=
        Span.inside_of_cutAt ⟨hbehind.source_eq, hstart.symm, hstop.symm⟩ hfills.lexeme_ne_nil
      exact Or.inl ⟨token, rfl, hinside.pointsInto, fun _ => hinside⟩

/-- A text reads like itself, and all that is read of it and blamed in it lies in it. -/
def within (source : List Char) : Likeness where
  scanners s s' := s' = s ∧ ∃ left, Behind source left s
  places a a' := a' = a ∧ a.Inside source
  blamed a a' := a' = a ∧ a.PointsInto source
  scan := by
    rintro s _ ⟨rfl, left, h⟩
    rcases h.scan_places with ⟨token, hitem, hpoints, hinside⟩ | ⟨⟨cause, span⟩, hitem, hinside⟩
    · rw [hitem]
      exact .result ⟨rfl, rfl, rfl, ⟨rfl, hpoints⟩, fun hmore => ⟨rfl, hinside hmore⟩⟩
    · rw [hitem]
      exact .fault ⟨rfl, hinside.pointsInto⟩
  scan_behind := by
    rintro s _ ⟨rfl, left, h⟩
    exact ⟨rfl, h.scan⟩
  cover := by
    rintro a _ b _ ⟨rfl, ha⟩ ⟨rfl, hb⟩
    exact ⟨rfl, ha.cover hb⟩
  blamed_of_places h := ⟨h.1, h.2.pointsInto⟩
  blamed_behind h := ⟨by rw [h.1], Span.pointsInto_single h.2.stops⟩

end Scanner

/-- A fault that is its own like is blamed on what the likeness knows of such places. -/
theorem Alike.blamed_self {α : Type} {results : α → α → Prop} {blamed : Span → Span → Prop}
    {fault : Fault} (h : Alike blamed results (.error fault) (.error fault)) :
    blamed fault.span fault.span := by
  cases h
  assumption

/-- Whatever fault a text is answered with, by its stream, by its parse or by its value: its span starts
at a boundary of the text, it is not empty, and counted in characters it is as long as there are
characters in it, but at least one. -/
theorem fault_points_into {source : List Char} {fault : Fault}
    (h : .error fault ∈ (Scanner.ofSource source).items.1 ∨ Expr.parse source = .error fault ∨
      evaluate source = .error fault) :
    (∃ left right, source = left ++ right ∧ byteLength left = fault.span.start) ∧
      fault.span.start ≤ byteLength source ∧ fault.span.start < fault.span.stop ∧
      fault.span.chars source =
        ⟨charsBefore source fault.span.start,
          charsBefore source fault.span.start + max 1 (charsInside source fault.span)⟩ := by
  have hself : (Scanner.within source).scanners (.ofSource source) (.ofSource source) :=
    ⟨rfl, [], Scanner.behind_ofSource source⟩
  have hpoints : fault.span.PointsInto source := by
    rcases h with hitem | hparse | hvalue
    · have hitems := List.forall₂_same.mp ((Scanner.within source).items hself rfl rfl)
      exact (hitems _ hitem).blamed_self.2
    · have halike := (Scanner.within source).parse hself
      rw [hparse] at halike
      exact halike.blamed_self.2
    · have halike := (Scanner.within source).evaluate hself
      rw [hvalue] at halike
      exact halike.blamed_self.2
  exact ⟨hpoints.starts, hpoints.starts.le, hpoints.nonempty, hpoints.chars_eq⟩

/-- Where the parenthesis is missing stands a blank of three bytes, of which the fault has the first:
one place, and no character. -/
theorem fault_points_into_wide_blank :
    ∃ fault, evaluate "(1\u3000".toList = .error fault ∧ fault.span = ⟨2, 3⟩ ∧
      charsInside "(1\u3000".toList fault.span = 0 ∧
      fault.span.chars "(1\u3000".toList =
        ⟨charsBefore "(1\u3000".toList fault.span.start,
          charsBefore "(1\u3000".toList fault.span.start +
            max 1 (charsInside "(1\u3000".toList fault.span)⟩ := by
  have hvalue : evaluate "(1\u3000".toList = .error ⟨.unclosedGroup, ⟨2, 3⟩⟩ := by decide +kernel
  have hpoints := fault_points_into (Or.inr (Or.inr hvalue))
  exact ⟨_, hvalue, rfl, by decide, hpoints.2.2.2⟩

end Calculator
