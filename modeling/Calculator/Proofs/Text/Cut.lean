import Calculator.Proofs.Text.Slice

/-!
# Cutting a text

A text that is kept as bytes can be cut between two of its characters, but not within one. `cut?` cuts
a text at an offset if it can be cut there, and `slice?` takes what lies between two offsets if it can
be cut at both.

`charOffset` counts characters without a cut. `charOffset?` counts them as one does with cuts: it looks
for the last place at or before the offset where a character starts, and cuts the text there. That cut
is always possible, and the count is the same (`charOffset?_eq`).
-/

namespace Calculator

namespace Text

/-- A text cut at an offset, if a character starts there or the text ends. -/
def cut? : List Char → Nat → Option (List Char × List Char)
  | text, 0 => some ([], text)
  | [], _ + 1 => none
  | c :: text, offset + 1 =>
    if offset + 1 < c.utf8Size then none
    else (cut? text (offset + 1 - c.utf8Size)).map fun (left, right) => (c :: left, right)

/-- What stands between two offsets of a text, if it can be cut at both. -/
def slice? (source : List Char) (span : Span) : Option (List Char) := do
  let (before, _) ← cut? source span.stop
  let (_, text) ← cut? before span.start
  return text

theorem cut?_append (left right : List Char) :
    cut? (left ++ right) (byteLength left) = some (left, right) := by
  induction left with
  | nil => simp [cut?]
  | cons c left ih =>
    obtain ⟨size, hsize⟩ := Nat.exists_eq_succ_of_ne_zero (Nat.ne_of_gt c.utf8Size_pos)
    have hrest : size + byteLength left + 1 - c.utf8Size = byteLength left := by omega
    rw [List.cons_append, byteLength_cons, hsize, Nat.succ_add, cut?, if_neg (by omega), hrest, ih]
    rfl

theorem cut?_eq_some_iff {source left right : List Char} {offset : Nat} :
    cut? source offset = some (left, right) ↔ source = left ++ right ∧ byteLength left = offset := by
  constructor
  · intro h
    fun_induction cut? source offset generalizing left with
    | case1 text =>
      obtain ⟨rfl, rfl⟩ := Prod.mk.inj (Option.some.inj h)
      exact ⟨rfl, rfl⟩
    | case2 => cases h
    | case3 => cases h
    | case4 c text offset hwithin ih =>
      obtain ⟨⟨before, after⟩, hcut, hboth⟩ := Option.map_eq_some_iff.mp h
      obtain ⟨rfl, rfl⟩ := Prod.mk.inj hboth
      obtain ⟨rfl, hlength⟩ := ih hcut
      exact ⟨rfl, by rw [byteLength_cons]; omega⟩
  · rintro ⟨rfl, rfl⟩
    exact cut?_append left right

theorem slice?_eq_some_iff {source text : List Char} {span : Span} :
    slice? source span = some text ↔ SliceAt source span text := by
  constructor
  · intro h
    obtain ⟨⟨before, right⟩, hcut, h⟩ := Option.bind_eq_some_iff.mp h
    obtain ⟨⟨left, middle⟩, hcut', h⟩ := Option.bind_eq_some_iff.mp h
    obtain rfl := Option.some.inj h
    obtain ⟨rfl, hstop⟩ := cut?_eq_some_iff.mp hcut
    obtain ⟨rfl, hstart⟩ := cut?_eq_some_iff.mp hcut'
    exact ⟨left, right, rfl, hstart, hstop⟩
  · rintro ⟨left, right, rfl, hstart, hstop⟩
    rw [slice?, ← hstop, cut?_append, ← hstart]
    simp [cut?_append]

/-! ## Counting characters -/

/-- The last place at or before an offset where a text can be cut. -/
def lastBoundary (source : List Char) : Nat → Nat
  | 0 => 0
  | offset + 1 => if (cut? source (offset + 1)).isSome then offset + 1 else lastBoundary source offset

/-- The number of characters before an offset, counted in the text before the last boundary, plus the
bytes behind that. -/
def charOffset? (source : List Char) (offset : Nat) : Option Nat := do
  let boundary := lastBoundary source (min offset (byteLength source))
  let (left, _) ← cut? source boundary
  return left.length + (offset - boundary)

theorem lastBoundary_le (source : List Char) (offset : Nat) : lastBoundary source offset ≤ offset := by
  induction offset with
  | zero => exact Nat.le_refl 0
  | succ offset ih =>
    unfold lastBoundary
    split
    · exact Nat.le_refl _
    · exact Nat.le_succ_of_le ih

/-- A text can be cut at the last boundary. -/
theorem exists_cut_lastBoundary (source : List Char) (offset : Nat) :
    ∃ left right, cut? source (lastBoundary source offset) = some (left, right) := by
  induction offset with
  | zero => exact ⟨[], source, by cases source <;> rfl⟩
  | succ offset ih =>
    unfold lastBoundary
    split
    · next hcut =>
      obtain ⟨⟨left, right⟩, hboth⟩ := Option.isSome_iff_exists.mp hcut
      exact ⟨left, right, hboth⟩
    · exact ih

/-- There is no boundary between the last one and the offset. -/
theorem lt_of_lastBoundary_lt {source left right : List Char} {offset : Nat}
    (hcut : source = left ++ right) (h : lastBoundary source offset < byteLength left) :
    offset < byteLength left := by
  induction offset with
  | zero => exact h
  | succ offset ih =>
    unfold lastBoundary at h
    split at h
    · exact h
    · next hno =>
      refine Nat.lt_of_le_of_ne (ih h) fun heq => hno ?_
      rw [heq, hcut, cut?_append]
      rfl

/-- The count with cuts always succeeds, and it is the count without. -/
theorem charOffset?_eq (source : List Char) (offset : Nat) :
    charOffset? source offset = some (charOffset source offset) := by
  have hle := lastBoundary_le source (min offset (byteLength source))
  have hbehind : ∀ left right : List Char, source = left ++ right →
      lastBoundary source (min offset (byteLength source)) < byteLength left →
      min offset (byteLength source) < byteLength left :=
    fun left right => lt_of_lastBoundary_lt
  obtain ⟨left, right, hcut⟩ := exists_cut_lastBoundary source (min offset (byteLength source))
  unfold charOffset?
  generalize lastBoundary source (min offset (byteLength source)) = boundary at *
  obtain ⟨rfl, rfl⟩ := cut?_eq_some_iff.mp hcut
  obtain ⟨more, rfl⟩ := Nat.exists_eq_add_of_le (Nat.le_trans hle (Nat.min_le_left _ _))
  -- behind the last boundary there are fewer bytes than the next character has
  have hrest : charOffset right more = more := by
    cases right with
    | nil => rfl
    | cons c right =>
      have hlt := hbehind (left ++ [c]) right (by simp) (by simp [c.utf8Size_pos])
      simp only [byteLength_append, byteLength_cons, byteLength_nil] at hlt
      rw [charOffset, if_pos (by omega)]
  simp [cut?_append, charOffset_append, hrest]

end Text

/-- A span counted in characters of a text, with cuts. -/
def Span.chars? (source : List Char) (span : Span) : Option Span := do
  let start ← Text.charOffset? source span.start
  let stop ← Text.charOffset? source span.stop
  return ⟨start, stop⟩

theorem Span.chars?_eq (source : List Char) (span : Span) :
    span.chars? source = some (span.chars source) := by
  simp [chars?, chars, Text.charOffset?_eq]

/-- An offset within a character is no place for a cut, but characters can still be counted up to it. -/
example : Text.cut? ['é', '1'] 1 = none ∧ Text.charOffset? ['é', '1'] 1 = some 1 := by decide

end Calculator
