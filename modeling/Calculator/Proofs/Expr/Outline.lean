import Calculator.Expr.Outline
import Calculator.Proofs.Evaluation.Shape
import Calculator.Proofs.Parse.Spacing
import Calculator.Proofs.Text.Numeral
import Calculator.Proofs.Text.Slice

/-!
# What an outline says

An outline says all of an expression but its spans (`outline_eq_iff`).

The lines of an outline tell where it ends: whatever lines follow those of two expressions, if the whole
is the same, so are the expressions, up to their spans, and what follows
(`outlineLines_append_inj`). This is what an induction needs, for the outline of a left operand runs
into the line of its operator. Since no line has a line feed in it, the lines can be read off the text.
-/

namespace Calculator

theorem Operator.name_injective {a b : Operator} (h : a.name = b.name) : a = b := by
  cases a <;> cases b <;> revert h <;> decide

theorem Word.text_injective {a b : Word} (h : a.text = b.text) : a = b :=
  Word.ext (Text.signedNumeral_injective h)

namespace Expr

/-! ## Lines -/

theorem outlineLine_inj {level : Nat} {content content' : List Char} :
    outlineLine level content = outlineLine level content' ↔ content = content' :=
  List.append_right_inj _

/-- Outlines say nothing of spans. -/
theorem outlineLines_eq_of_shape_eq {e e' : Expr} {level : Nat} (h : e.shape = e'.shape) :
    e.outlineLines level = e'.outlineLines level := by
  induction e generalizing e' level with
  | number value span =>
    cases e' with
    | number value' span' =>
      obtain rfl := Shape.number.inj h
      rfl
    | binary left' operator' right' span' => simp [shape] at h
  | binary left operator right span ihl ihr =>
    cases e' with
    | number value' span' => simp [shape] at h
    | binary left' operator' right' span' =>
      obtain ⟨hleft, rfl, hright⟩ := Shape.binary.inj h
      rw [outlineLines, outlineLines, ihl hleft, ihr hright]

/-- With any lines behind it, an outline is told from all others. -/
theorem outlineLines_append_inj {e e' : Expr} {level : Nat} {behind behind' : List (List Char)}
    (h : e.outlineLines level ++ behind = e'.outlineLines level ++ behind') :
    e.shape = e'.shape ∧ behind = behind' := by
  induction e generalizing e' level behind behind' with
  | number value span =>
    cases e' with
    | number value' span' =>
      obtain ⟨hline, hbehind⟩ := List.cons.inj h
      have hcontent := outlineLine_inj.mp hline
      rw [List.append_assoc, List.append_assoc, List.append_right_inj, List.append_left_inj] at hcontent
      rw [shape, shape, Word.text_injective hcontent]
      exact ⟨rfl, hbehind⟩
    | binary left' operator' right' span' =>
      have hcontent := outlineLine_inj.mp (List.cons.inj h).1
      simp at hcontent
  | binary left operator right span ihl ihr =>
    cases e' with
    | number value' span' =>
      have hcontent := outlineLine_inj.mp (List.cons.inj h).1
      simp at hcontent
    | binary left' operator' right' span' =>
      simp only [outlineLines, List.cons_append, List.append_assoc, List.cons.injEq, true_and] at h
      obtain ⟨hleft, hbehind⟩ := ihl h
      obtain ⟨hoperator, hlines⟩ := List.cons.inj hbehind
      have hname := outlineLine_inj.mp hoperator
      rw [List.append_right_inj, String.toList_inj] at hname
      obtain ⟨hright, hrest⟩ := ihr (List.cons.inj hlines).2
      rw [shape, shape, hleft, hright, Operator.name_injective hname]
      exact ⟨rfl, hrest⟩

/-! ## The text -/

theorem newline_not_mem_outlineLine {level : Nat} {content : List Char} (h : '\n' ∉ content) :
    '\n' ∉ outlineLine level content := by
  intro hmem
  rcases List.mem_append.mp hmem with hblank | hcontent
  · exact absurd (List.eq_of_mem_replicate hblank) (by decide)
  · exact h hcontent

theorem newline_not_mem_word (value : Word) :
    '\n' ∉ "Num(".toList ++ value.text ++ [')'] := by
  have htext : '\n' ∉ value.text := fun h =>
    (Text.isDigit_or_eq_of_mem_signedNumeral h).elim (absurd · (by decide)) (absurd · (by decide))
  simpa using htext

theorem newline_not_mem_name (operator : Operator) :
    '\n' ∉ "op: ".toList ++ operator.name.toList := by
  cases operator <;> decide

theorem newline_not_mem_outlineLines {e : Expr} {level : Nat} {line : List Char}
    (h : line ∈ e.outlineLines level) : '\n' ∉ line := by
  induction e generalizing level with
  | number value span =>
    rw [List.mem_singleton.mp h]
    exact newline_not_mem_outlineLine (newline_not_mem_word value)
  | binary left operator right span ihl ihr =>
    simp only [outlineLines, List.mem_append, List.mem_cons] at h
    rcases h with (rfl | rfl | hleft) | rfl | rfl | hright
    · exact newline_not_mem_outlineLine (by decide)
    · exact newline_not_mem_outlineLine (by decide)
    · exact ihl hleft
    · exact newline_not_mem_outlineLine (newline_not_mem_name operator)
    · exact newline_not_mem_outlineLine (by decide)
    · exact ihr hright

/-- Lines can be read off the text that they make. -/
theorem lines_eq_of_flatMap_eq {lines lines' : List (List Char)} (hlines : ∀ line ∈ lines, '\n' ∉ line)
    (hlines' : ∀ line ∈ lines', '\n' ∉ line)
    (h : lines.flatMap (· ++ ['\n']) = lines'.flatMap (· ++ ['\n'])) : lines = lines' := by
  induction lines generalizing lines' with
  | nil =>
    cases lines' with
    | nil => rfl
    | cons line' lines' => simp at h
  | cons line lines ih =>
    cases lines' with
    | nil => simp at h
    | cons line' lines' =>
      simp only [List.flatMap_cons, List.append_assoc, List.singleton_append] at h
      obtain ⟨hfirst, hothers⟩ := List.forall_mem_cons.mp hlines
      obtain ⟨hfirst', hothers'⟩ := List.forall_mem_cons.mp hlines'
      obtain ⟨rfl, hrest⟩ := Text.cut_unique_of_not_mem hfirst hfirst' h
      rw [ih hothers hothers' hrest]

end Expr

/-- Two expressions have one outline exactly if they are equal up to their spans. Then they have the
same value, or fail in the same words. -/
theorem outline_eq_iff (e e' : Expr) :
    (e.outline = e'.outline ↔ e.shape = e'.shape) ∧
      (e.outline = e'.outline → e.eval.mapError Fault.words = e'.eval.mapError Fault.words) := by
  have hshapes : e.outline = e'.outline → e.shape = e'.shape := by
    intro h
    have hlines := Expr.lines_eq_of_flatMap_eq (fun _ => Expr.newline_not_mem_outlineLines)
      (fun _ => Expr.newline_not_mem_outlineLines) h
    exact (Expr.outlineLines_append_inj (congrArg (· ++ []) hlines)).1
  refine ⟨⟨hshapes, fun h => ?_⟩, fun h => ?_⟩
  · rw [Expr.outline, Expr.outline, Expr.outlineLines_eq_of_shape_eq h]
  · have hvalues : e.shape.eval = e'.shape.eval := by rw [hshapes h]
    exact Expr.mapError_eval_eq hvalues fun cause => (cause.kind, cause.message, cause.help)

/-- A division by zero, with and without blanks: two expressions, one outline, one fault. -/
theorem outline_eq_iff_division_by_zero :
    ∃ e e' : Expr, e ≠ e' ∧ e.outline = e'.outline ∧ e.shape = e'.shape ∧
      e.eval.mapError Fault.words = e'.eval.mapError Fault.words := by
  have h := outline_eq_iff
    (.binary (.number ⟨-8, by decide, by decide⟩ ⟨0, 2⟩) .divide
      (.number ⟨0, by decide, by decide⟩ ⟨3, 4⟩) ⟨0, 4⟩)
    (.binary (.number ⟨-8, by decide, by decide⟩ ⟨1, 3⟩) .divide
      (.number ⟨0, by decide, by decide⟩ ⟨6, 7⟩) ⟨1, 7⟩)
  have houtline := h.1.mpr rfl
  exact ⟨_, _, by decide, houtline, h.1.mp houtline, h.2 houtline⟩

end Calculator
