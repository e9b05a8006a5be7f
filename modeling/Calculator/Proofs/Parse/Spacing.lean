import Calculator.Proofs.Parse.Exactness
import Calculator.Proofs.Parse.Likeness
import Calculator.Proofs.Token.Pieces

/-!
# Blanks do not matter

Blanks can be put into a text wherever they part no two digits. They change nothing but places: the text
with them has the same tokens, parses to the same shape and has the same value, or it fails for the same
cause (`blanks_invisible`).

The two scanners read alike (`spacing`). Up to the blanks the texts are the same. The scan that comes to
them either skips them together with its own blanks, or it stops right in front of them, and the next
one skips them. A run of digits stops there in both texts, because no digit follows in either.
-/

namespace Calculator

/-- What a fault says, wherever it is found. -/
def Fault.words (fault : Fault) : Fault.Kind × String × Option String :=
  (fault.cause.kind, fault.cause.message, fault.cause.help)

/-- What a token is, wherever it stands. -/
def Token.entry (token : Token) : Token.Kind × List Char × Option Word :=
  (token.kind, token.lexeme, token.value)

/-- Results that agree but for their places, or faults in the same words. -/
theorem Alike.words_eq {α β : Type} {results : α → α → Prop} {blamed : Span → Span → Prop}
    {a b : Except Fault α} (h : Alike blamed results a b) {f : α → β}
    (hf : ∀ x y, results x y → f y = f x) :
    (b.map f).mapError Fault.words = (a.map f).mapError Fault.words := by
  cases h with
  | result hresult => exact congrArg Except.ok (hf _ _ hresult)
  | fault => rfl

namespace Scanner

open Text

/-- Two texts, of which the second has blanks besides, at a place that is not between two digits. -/
def Spaced (text text' : List Char) : Prop :=
  ∃ left gap right, text = left ++ right ∧ text' = left ++ gap ++ right ∧
    (∀ c ∈ gap, isBlank c = true) ∧ ∀ c, left.getLast? = some c → c.isDigit = true → NoDigit right

theorem Spaced.refl (text : List Char) : Spaced text text :=
  ⟨text, [], [], by simp, by simp, by simp, fun _ _ _ _ h => nomatch h⟩

section

variable {left gap right : List Char} (hgap : ∀ c ∈ gap, isBlank c = true)
  (hapart : ∀ c, left.getLast? = some c → c.isDigit = true → NoDigit right)
include hgap hapart

/-- Behind the blanks at their starts, both texts have ended, or they start with the same character and
the blanks that only one of them has stand behind it. -/
theorem dropWhile_isBlank_spaced :
    ((left ++ right).dropWhile isBlank = [] ∧ (left ++ gap ++ right).dropWhile isBlank = []) ∨
      ∃ first others gap' right', (left ++ right).dropWhile isBlank = first :: others ++ right' ∧
        (left ++ gap ++ right).dropWhile isBlank = first :: others ++ gap' ++ right' ∧
        (∀ c ∈ gap', isBlank c = true) ∧
        ∀ c, (first :: others).getLast? = some c → c.isDigit = true → NoDigit right' := by
  have hsplit : left.takeWhile isBlank ++ left.dropWhile isBlank = left :=
    List.takeWhile_append_dropWhile
  have hblank : ∀ c ∈ left.takeWhile isBlank, isBlank c = true := fun c hc =>
    List.mem_takeWhile_imp hc
  cases hrest : left.dropWhile isBlank with
  | nil =>
    -- all of the text before the blanks is blank itself, so both texts go on with the same one
    rw [hrest, List.append_nil] at hsplit
    rw [hsplit] at hblank
    rw [List.append_assoc, List.dropWhile_append_of_pos hblank, List.dropWhile_append_of_pos hblank,
      List.dropWhile_append_of_pos hgap]
    cases right.dropWhile isBlank with
    | nil => exact Or.inl ⟨rfl, rfl⟩
    | cons first others =>
      exact Or.inr ⟨first, others, [], [], by simp, by simp, by simp, fun _ _ _ _ h => nomatch h⟩
  | cons first others =>
    have hfirst : isBlank first = false := head?_dropWhile (by rw [hrest]; rfl)
    rw [hrest] at hsplit
    have hstops : ∀ more c, (first :: others ++ more).head? = some c → isBlank c = false := by
      intro more c hc
      obtain rfl := Option.some.inj hc
      exact hfirst
    refine Or.inr ⟨first, others, gap, right, ?_, ?_, hgap, fun c hc => hapart c ?_⟩
    · rw [← hsplit, List.append_assoc]
      exact (takeWhile_append_of_head? hblank (hstops _)).2
    · rw [← hsplit]
      simpa using (takeWhile_append_of_head? hblank (hstops (gap ++ right))).2
    · rw [← hsplit, List.getLast?_append, hc]
      rfl

/-- A run of digits that starts in front of the blanks is the same in both texts. -/
theorem takeWhile_isDigit_spaced (hne : left ≠ []) :
    (left ++ gap ++ right).takeWhile Char.isDigit = (left ++ right).takeWhile Char.isDigit ∧
      Spaced ((left ++ right).dropWhile Char.isDigit)
        ((left ++ gap ++ right).dropWhile Char.isDigit) := by
  have hsplit : left.takeWhile Char.isDigit ++ left.dropWhile Char.isDigit = left :=
    List.takeWhile_append_dropWhile
  have hdigits : ∀ c ∈ left.takeWhile Char.isDigit, c.isDigit = true := fun c hc =>
    List.mem_takeWhile_imp hc
  -- neither text goes on with a digit behind the digits before the blanks
  have hstops : NoDigit (left.dropWhile Char.isDigit ++ right) ∧
      NoDigit (left.dropWhile Char.isDigit ++ gap ++ right) := by
    cases hrest : left.dropWhile Char.isDigit with
    | nil =>
      rw [hrest, List.append_nil] at hsplit
      rw [hsplit] at hdigits
      have hright : NoDigit right :=
        hapart _ (List.getLast?_eq_some_getLast hne) (hdigits _ (List.getLast_mem hne))
      refine ⟨hright, ?_⟩
      cases gap with
      | nil => exact hright
      | cons blank more =>
        intro d hd
        obtain rfl := Option.some.inj hd
        exact isDigit_eq_false_of_isBlank (hgap _ List.mem_cons_self)
    | cons d others =>
      have hd : d.isDigit = false := head?_dropWhile (by rw [hrest]; rfl)
      exact ⟨by simpa [NoDigit] using hd, by simpa [NoDigit] using hd⟩
  obtain ⟨htake, hdrop⟩ := takeWhile_append_of_head? hdigits hstops.1
  obtain ⟨htake', hdrop'⟩ := takeWhile_append_of_head? hdigits hstops.2
  rw [← List.append_assoc, hsplit] at htake hdrop
  rw [← List.append_assoc, ← List.append_assoc, hsplit] at htake' hdrop'
  rw [htake, htake', hdrop, hdrop']
  refine ⟨rfl, left.dropWhile Char.isDigit, gap, right, rfl, rfl, hgap, fun c hc => hapart c ?_⟩
  rw [← hsplit, List.getLast?_append, hc]
  rfl

end

/-- Nothing is known of the places. -/
def anywhere (_ _ : Span) : Prop := True

/-- A scan reads the same in both texts, and the blanks still part no digits behind it. -/
theorem scan_spaced {s s' : Scanner} (h : Spaced s.rest s'.rest) :
    Alike anywhere (Token.Like anywhere anywhere) s.scan.1 s'.scan.1 ∧
      Spaced s.scan.2.rest s'.scan.2.rest := by
  obtain ⟨left, gap, right, hrest, hrest', hgap, hapart⟩ := h
  have hskip := dropWhile_isBlank_spaced hgap hapart
  rw [← hrest, ← hrest'] at hskip
  unfold scan Scanner.token
  simp only [skip]
  rcases hskip with ⟨hend, hend'⟩ | ⟨first, others, gap, right, hstart, hstart', hgap, hapart⟩
  · rw [hend, hend']
    exact ⟨.result ⟨rfl, rfl, rfl, trivial, fun _ => trivial⟩, .refl []⟩
  · have hdigits := takeWhile_isDigit_spaced hgap hapart (List.cons_ne_nil first others)
    rw [hstart, hstart']
    dsimp only [List.cons_append]
    split
    · simp only [Scanner.number, skip]
      refine ⟨?_, hdigits.2⟩
      simp only [List.cons_append] at hdigits
      rw [hdigits.1]
      unfold numberItem
      split
      · exact .result ⟨rfl, rfl, rfl, trivial, fun _ => trivial⟩
      · exact .fault trivial
    · have hothers : Spaced (others ++ right) (others ++ gap ++ right) := by
        refine ⟨others, gap, right, rfl, rfl, hgap, fun c hc => hapart c ?_⟩
        rw [List.getLast?_cons, hc]
        rfl
      split
      · exact ⟨.result ⟨rfl, rfl, rfl, trivial, fun _ => trivial⟩, hothers⟩
      · exact ⟨.fault trivial, first :: others, gap, right, rfl, rfl, hgap, hapart⟩

/-- Texts that differ in blanks read alike. -/
def spacing : Likeness where
  scanners s s' := Spaced s.rest s'.rest
  places := anywhere
  blamed := anywhere
  scan h := (scan_spaced h).1
  scan_behind h := (scan_spaced h).2
  cover _ _ := trivial
  blamed_of_places _ := trivial
  blamed_behind _ := trivial

end Scanner

/-- Blanks that are put into a text, anywhere but between two digits, change none of its tokens, neither
the shape it is parsed to nor its value, and no word of a fault. -/
theorem blanks_invisible {left gap right : List Char} (hgap : ∀ c ∈ gap, Text.isBlank c = true)
    (hapart : ∀ c d, left.getLast? = some c → right.head? = some d →
      ¬ (c.isDigit = true ∧ d.isDigit = true)) :
    (Scanner.ofSource (left ++ gap ++ right)).items.1.map
        (fun item => (item.map Token.entry).mapError Fault.words) =
      (Scanner.ofSource (left ++ right)).items.1.map
        (fun item => (item.map Token.entry).mapError Fault.words) ∧
    ((Expr.parse (left ++ gap ++ right)).map Expr.shape).mapError Fault.words =
      ((Expr.parse (left ++ right)).map Expr.shape).mapError Fault.words ∧
    (evaluate (left ++ gap ++ right)).mapError Fault.words =
      (evaluate (left ++ right)).mapError Fault.words := by
  have hspaced : Scanner.spacing.scanners (.ofSource (left ++ right))
      (.ofSource (left ++ gap ++ right)) := by
    refine ⟨left, gap, right, rfl, rfl, hgap, fun c hc hdigit d hd => ?_⟩
    cases hdigit' : d.isDigit with
    | false => rfl
    | true => exact absurd ⟨hdigit, hdigit'⟩ (hapart c d hc hd)
  refine ⟨?_, ?_, ?_⟩
  · have hitems := Scanner.spacing.items hspaced rfl rfl
    refine (List.forall₂_eq_eq_eq ▸ List.forall₂_map_left_iff.mpr
      (List.forall₂_map_right_iff.mpr (hitems.imp fun item item' halike => ?_))).symm
    exact (halike.words_eq fun t t' ht => by
      rw [Token.entry, Token.entry, ht.kind_eq, ht.lexeme_eq, ht.value_eq]).symm
  · exact (Scanner.spacing.parse hspaced).words_eq fun e e' he => he.shape_eq
  · have hvalue := (Scanner.spacing.evaluate hspaced).words_eq (f := id) fun v v' hv => hv.symm
    simpa using hvalue

/-- Two blanks of three bytes and of one behind a digit, in a group that is not closed. -/
theorem blanks_invisible_in_open_group :
    ((Scanner.ofSource "8/(4\u3000\n+2".toList).items.1.map
        (fun item => (item.map Token.entry).mapError Fault.words) =
      (Scanner.ofSource "8/(4+2".toList).items.1.map
        (fun item => (item.map Token.entry).mapError Fault.words)) ∧
    ((Expr.parse "8/(4\u3000\n+2".toList).map Expr.shape).mapError Fault.words =
      ((Expr.parse "8/(4+2".toList).map Expr.shape).mapError Fault.words ∧
    (evaluate "8/(4\u3000\n+2".toList).mapError Fault.words =
      (evaluate "8/(4+2".toList).mapError Fault.words ∧
    evaluate "8/(4+2".toList = .error ⟨.unclosedGroup, .single 6⟩ := by
  have hgap : ∀ c ∈ "\u3000\n".toList, Text.isBlank c = true :=
    List.all_eq_true.mp (by decide)
  have hapart : ∀ c d, "8/(4".toList.getLast? = some c → "+2".toList.head? = some d →
      ¬ (c.isDigit = true ∧ d.isDigit = true) := by
    intro c d _ hd
    obtain rfl : '+' = d := Option.some.inj hd
    exact fun h => absurd h.2 (by decide)
  obtain ⟨hitems, hparse, hvalue⟩ := blanks_invisible hgap hapart
  exact ⟨hitems, hparse, hvalue, by decide +kernel⟩

end Calculator
