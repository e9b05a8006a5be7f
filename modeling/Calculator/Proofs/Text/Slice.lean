import Calculator.Span

/-!
# Slices of a text

A span that starts and stops between two characters of a text cuts it in three (`CutAt`); what lies in
the middle is its slice (`SliceAt`). Since every character takes a byte at least, a cut is where its
offset says and nowhere else: a text cut in two ways is cut in the same places, or one further behind
the other (`Text.exists_middle_of_byteLength_le`).
-/

namespace Calculator

/-- A text, cut where a span starts and where it stops. -/
def CutAt (source : List Char) (span : Span) (left middle right : List Char) : Prop :=
  source = left ++ middle ++ right ∧ Text.byteLength left = span.start ∧
    Text.byteLength (left ++ middle) = span.stop

/-- The text of a source that a span stands for. -/
def SliceAt (source : List Char) (span : Span) (text : List Char) : Prop :=
  ∃ left right, CutAt source span left text right

namespace Text

theorem eq_nil_of_byteLength_eq_zero {text : List Char} (h : byteLength text = 0) : text = [] := by
  have hle := length_le_byteLength text
  exact List.length_eq_zero_iff.mp (by omega)

/-- Of two cuts of a text, one lies behind the other. -/
theorem exists_middle_of_byteLength_le {left right left' right' : List Char}
    (h : left ++ right = left' ++ right') (hle : byteLength left ≤ byteLength left') :
    ∃ middle, left' = left ++ middle ∧ right = middle ++ right' := by
  rcases List.append_eq_append_iff.mp h with ⟨middle, hleft, hright⟩ | ⟨more, hleft, hright⟩
  · exact ⟨middle, hleft, hright⟩
  · rw [hleft, byteLength_append] at hle
    obtain rfl : more = [] := eq_nil_of_byteLength_eq_zero (by omega)
    exact ⟨[], by simpa using hleft.symm, by simpa using hright.symm⟩

/-- Two cuts of a text at one offset are the same. -/
theorem cut_unique {left right left' right' : List Char} (h : left ++ right = left' ++ right')
    (hlength : byteLength left = byteLength left') : left = left' ∧ right = right' := by
  obtain ⟨middle, rfl, rfl⟩ := exists_middle_of_byteLength_le h (Nat.le_of_eq hlength)
  rw [byteLength_append] at hlength
  obtain rfl : middle = [] := eq_nil_of_byteLength_eq_zero (by omega)
  simp

/-- Two cuts of a text at the first of some character are the same. -/
theorem cut_unique_of_not_mem {left right left' right' : List Char} {c : Char} (hleft : c ∉ left)
    (hleft' : c ∉ left') (h : left ++ c :: right = left' ++ c :: right') :
    left = left' ∧ right = right' := by
  rcases List.append_eq_append_iff.mp h with ⟨middle, rfl, hrest⟩ | ⟨middle, rfl, hrest⟩
  · cases middle with
    | nil => exact ⟨(List.append_nil _).symm, (List.cons.inj hrest).2⟩
    | cons d middle =>
      obtain ⟨rfl, -⟩ := List.cons.inj hrest
      exact absurd (by simp) hleft'
  · cases middle with
    | nil => exact ⟨List.append_nil _, (List.cons.inj hrest).2.symm⟩
    | cons d middle =>
      obtain ⟨rfl, -⟩ := List.cons.inj hrest
      exact absurd (by simp) hleft

/-- A character of a text whose offset lies in a slice is a character of the slice. -/
theorem exists_of_byteLength_lt {left middle right before after : List Char} {c : Char}
    (h : left ++ middle ++ right = before ++ c :: after)
    (hstart : byteLength left ≤ byteLength before)
    (hstop : byteLength before < byteLength (left ++ middle)) :
    ∃ inside behind, before = left ++ inside ∧ middle = inside ++ c :: behind ∧
      after = behind ++ right := by
  rw [List.append_assoc] at h
  obtain ⟨inside, rfl, hrest⟩ := exists_middle_of_byteLength_le h hstart
  simp only [byteLength_append] at hstop
  obtain ⟨more, rfl, hmore⟩ := exists_middle_of_byteLength_le hrest.symm (by omega)
  cases more with
  | nil => simp at hstop
  | cons first behind =>
    obtain ⟨rfl, rfl⟩ := List.cons.inj hmore
    exact ⟨inside, behind, rfl, rfl, rfl⟩

end Text

theorem CutAt.sliceAt {source left middle right : List Char} {span : Span}
    (h : CutAt source span left middle right) : SliceAt source span middle :=
  ⟨left, right, h⟩

/-- A slice ends within its text. -/
theorem SliceAt.stop_le {source text : List Char} {span : Span} (h : SliceAt source span text) :
    span.stop ≤ Text.byteLength source := by
  obtain ⟨left, right, rfl, -, hstop⟩ := h
  rw [← hstop, Text.byteLength_append (left ++ text)]
  exact Nat.le_add_right _ _

/-- Between two cuts of a text lies a slice of it. -/
theorem exists_sliceAt {source left right left' right' : List Char} (h : source = left ++ right)
    (h' : source = left' ++ right') (hle : Text.byteLength left ≤ Text.byteLength left') :
    ∃ text, left' = left ++ text ∧
      SliceAt source ⟨Text.byteLength left, Text.byteLength left'⟩ text := by
  obtain ⟨text, rfl, -⟩ := Text.exists_middle_of_byteLength_le (h.symm.trans h') hle
  exact ⟨text, rfl, left, right', h', rfl, rfl⟩

/-- A span has one slice. -/
theorem SliceAt.unique {source text text' : List Char} {span : Span} (h : SliceAt source span text)
    (h' : SliceAt source span text') : text = text' := by
  obtain ⟨left, right, rfl, hstart, hstop⟩ := h
  obtain ⟨left', right', hsame, hstart', hstop'⟩ := h'
  obtain ⟨hboth, -⟩ := Text.cut_unique hsame (hstop.trans hstop'.symm)
  exact (Text.cut_unique hboth (hstart.trans hstart'.symm)).2

end Calculator
