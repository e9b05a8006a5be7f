import Calculator.Text.Blank

/-!
# Texts up to blanks

What is left of a text without its blanks (`Text.withoutBlanks`), and what trimming leaves of it.
-/

namespace Calculator.Text

/-- The characters of a text that are no blanks. -/
def withoutBlanks (text : List Char) : List Char :=
  text.filter fun c => !isBlank c

@[simp] theorem withoutBlanks_append (left right : List Char) :
    withoutBlanks (left ++ right) = withoutBlanks left ++ withoutBlanks right :=
  List.filter_append ..

theorem withoutBlanks_eq_nil_iff {text : List Char} :
    withoutBlanks text = [] ↔ ∀ c ∈ text, isBlank c = true := by
  simp [withoutBlanks]

theorem withoutBlanks_eq_self {text : List Char} (h : ∀ c ∈ text, isBlank c = false) :
    withoutBlanks text = text :=
  List.filter_eq_self.mpr fun c hc => by rw [h c hc]; rfl

/-- A text with one character besides its blanks. -/
theorem exists_of_withoutBlanks_eq_singleton {text : List Char} {c : Char}
    (h : withoutBlanks text = [c]) :
    ∃ before behind, text = before ++ c :: behind ∧ (∀ d ∈ before, isBlank d = true) ∧
      ∀ d ∈ behind, isBlank d = true := by
  obtain ⟨before, behind, htext, hbefore, -, hbehind⟩ := List.filter_eq_cons_iff.mp h
  exact ⟨before, behind, htext, by simpa using hbefore, withoutBlanks_eq_nil_iff.mp hbehind⟩

/-- Besides its blanks, a text has only copies of one character. -/
theorem eq_or_isBlank_of_withoutBlanks_eq_replicate {text : List Char} {c d : Char} {count : Nat}
    (h : withoutBlanks text = List.replicate count c) (hd : d ∈ text) : d = c ∨ isBlank d = true := by
  cases hblank : isBlank d with
  | true => exact Or.inr rfl
  | false =>
    have hmem : d ∈ withoutBlanks text := List.mem_filter.mpr ⟨hd, by rw [hblank]; rfl⟩
    rw [h] at hmem
    exact Or.inl (List.eq_of_mem_replicate hmem)

theorem count_withoutBlanks {text : List Char} {c : Char} (hc : isBlank c = false) :
    (withoutBlanks text).count c = text.count c :=
  List.count_filter (by rw [hc]; rfl)

/-- Trimming takes away the blanks around a text that neither starts nor ends with one. -/
theorem trim_eq {left middle right : List Char} (hleft : ∀ c ∈ left, isBlank c = true)
    (hright : ∀ c ∈ right, isBlank c = true)
    (hfirst : ∀ c, middle.head? = some c → isBlank c = false)
    (hlast : ∀ c, middle.getLast? = some c → isBlank c = false) (hne : middle ≠ []) :
    trim (left ++ middle ++ right) = middle := by
  obtain ⟨first, others, rfl⟩ := List.exists_cons_of_ne_nil hne
  have hstart : trimStart (left ++ (first :: others) ++ right) = first :: others ++ right := by
    rw [trimStart, List.append_assoc, List.dropWhile_append_of_pos hleft, List.cons_append,
      List.dropWhile_cons, hfirst first rfl]
    rfl
  have hend : trimEnd (first :: others ++ right) = first :: others := by
    rw [trimEnd, List.reverse_append, List.dropWhile_append_of_pos (by simpa using hright)]
    cases hreverse : (first :: others).reverse with
    | nil => simp at hreverse
    | cons last rest =>
      have hwhole : first :: others = rest.reverse ++ [last] := by
        rw [← List.reverse_reverse (first :: others), hreverse, List.reverse_cons]
      rw [List.dropWhile_cons, hlast last (by rw [hwhole]; simp), hwhole]
      simp
  rw [trim, hstart, hend]

/-- What trimming takes away are blanks, and what it leaves neither starts nor ends with one. -/
theorem exists_trim (text : List Char) :
    ∃ left right, text = left ++ trim text ++ right ∧ (∀ c ∈ left, isBlank c = true) ∧
      (∀ c ∈ right, isBlank c = true) ∧ (∀ c, (trim text).head? = some c → isBlank c = false) ∧
      ∀ c, (trim text).getLast? = some c → isBlank c = false := by
  have hstart : text.takeWhile isBlank ++ trimStart text = text := List.takeWhile_append_dropWhile
  have hend : trim text ++ ((trimStart text).reverse.takeWhile isBlank).reverse = trimStart text := by
    rw [trim, trimEnd, ← List.reverse_append, List.takeWhile_append_dropWhile, List.reverse_reverse]
  refine ⟨text.takeWhile isBlank, ((trimStart text).reverse.takeWhile isBlank).reverse, ?_, ?_, ?_, ?_,
    ?_⟩
  · rw [List.append_assoc, hend, hstart]
  · exact fun c hc => List.all_eq_true.mp List.all_takeWhile c hc
  · exact fun c hc => List.all_eq_true.mp List.all_takeWhile c (List.mem_reverse.mp hc)
  · intro c hc
    have hnot := List.head?_dropWhile_not isBlank text
    rw [← trimStart, ← hend, List.head?_append, hc] at hnot
    exact hnot
  · intro c hc
    rw [trim, trimEnd, List.getLast?_reverse] at hc
    have hnot := List.head?_dropWhile_not isBlank (trimStart text).reverse
    rw [hc] at hnot
    simpa using hnot

theorem trimStart_cons {c : Char} (hc : isBlank c = true) (text : List Char) :
    trimStart (c :: text) = trimStart text :=
  List.dropWhile_cons_of_pos hc

end Calculator.Text
