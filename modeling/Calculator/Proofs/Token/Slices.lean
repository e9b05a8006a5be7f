import Calculator.Proofs.Text.Cut
import Calculator.Proofs.Token.Interleaving

/-!
# Scanning by slices

A scanner holds the text in front of it. One that holds only its offset has to take that text out of the
whole one, again with every character that it moves over, and it takes each number out once more. Each of
these slices could start or stop within a character, and then there is no such slice.

Here the readings of a scanner are written out in that way. Of the text in front only the first character
is looked at; it is what was found with the last slice. Whatever a scanner that stands in the text is
asked for, every slice that it takes exists, and it answers as it does without slices
(`StandsIn.pullsIn_eq`).
-/

namespace Calculator.Scanner

open Text

/-! ## Readings -/

/-- The scanner behind the character in front. -/
def stepIn (source : List Char) (s : Scanner) : Option Scanner :=
  match s.rest.head? with
  | none => some s
  | some c => do
    let position := s.position + c.utf8Size
    let rest ← slice? source ⟨position, byteLength source⟩
    return { s with position, rest }

theorem stepIn_lt {source : List Char} {s t : Scanner} {c : Char} (hfront : s.rest.head? = some c)
    (h : s.stepIn source = some t) :
    byteLength source - t.position < byteLength source - s.position := by
  have hc := c.utf8Size_pos
  simp only [stepIn, hfront] at h
  obtain ⟨rest, hslice, h⟩ := Option.bind_eq_some_iff.mp h
  obtain rfl := Option.some.inj h
  obtain ⟨left, right, rfl, hstart, hstop⟩ := slice?_eq_some_iff.mp hslice
  simp only [byteLength_append] at hstart hstop ⊢
  omega

/-- The scanner behind the longest run of characters of a class, one character after the other. -/
def skipIn (source : List Char) (p : Char → Bool) (s : Scanner) : Option Scanner :=
  match _hfront : s.rest.head? with
  | none => some s
  | some c =>
    if p c then
      match _hstep : s.stepIn source with
      | none => none
      | some behind => behind.skipIn source p
    else some s
termination_by byteLength source - s.position
decreasing_by exact stepIn_lt _hfront _hstep

/-- Reads the number that starts here. -/
def numberIn (source : List Char) (s : Scanner) : Option (Item × Scanner) := do
  let behind ← s.skipIn source Char.isDigit
  let span : Span := ⟨s.position, behind.position⟩
  let digits ← slice? source span
  return (numberItem digits span, behind)

/-- Reads the token that starts here. -/
def tokenIn (source : List Char) (s : Scanner) : Option (Item × Scanner) :=
  match s.rest.head? with
  | none => some (.ok (.endOfInput s.position), s)
  | some c =>
    if c.isDigit then s.numberIn source
    else
      match markKind? c with
      | some kind => do
        let behind ← s.stepIn source
        return (.ok ⟨kind, [c], none, ⟨s.position, behind.position⟩⟩, behind)
      | none => some (.error ⟨.unexpectedCharacter c, ⟨s.position, s.position + c.utf8Size⟩⟩, s)

/-- Reads the next token. -/
def scanIn (source : List Char) (s : Scanner) : Option (Item × Scanner) := do
  let start ← s.skipIn source isBlank
  start.tokenIn source

/-- The answer to a request, if there is one, and the scanner behind it. -/
def pullIn (source : List Char) (s : Scanner) : Pull → Option (Option Item × Scanner)
  | .token => do
    let (item, behind) ← s.scanIn source
    return (some item, behind)
  | .item =>
    if s.finished then some (none, s)
    else do
      let (item, behind) ← s.scanIn source
      return (some item, { behind with finished := item.isLast })

/-- The answers to requests, one after the other, and the scanner behind them. -/
def pullsIn (source : List Char) (s : Scanner) : List Pull → Option (List (Option Item) × Scanner)
  | [] => some ([], s)
  | request :: requests => do
    let (answer, behind) ← s.pullIn source request
    let (others, last) ← behind.pullsIn source requests
    return (answer :: others, last)

/-! ## Every slice exists -/

/-- A scanner stands between two characters of a text and holds what is in front of it. -/
def StandsIn (source : List Char) (s : Scanner) : Prop :=
  ∃ left, source = left ++ s.rest ∧ s.position = byteLength left

section

variable {source : List Char} {s : Scanner}

theorem StandsIn.slice {text rest : List Char} (h : StandsIn source s) (hrest : s.rest = text ++ rest) :
    slice? source ⟨s.position, s.position + byteLength text⟩ = some text := by
  obtain ⟨left, hsource, hposition⟩ := h
  refine slice?_eq_some_iff.mpr ⟨left, rest, ?_, hposition.symm, ?_⟩
  · rw [hsource, hrest, List.append_assoc]
  · rw [byteLength_append, hposition]

theorem StandsIn.skip (h : StandsIn source s) (p : Char → Bool) : StandsIn source (s.skip p) := by
  obtain ⟨left, hsource, hposition⟩ := h
  refine ⟨left ++ s.rest.takeWhile p, ?_, ?_⟩
  · rw [List.append_assoc, Scanner.skip, List.takeWhile_append_dropWhile]
    exact hsource
  · rw [byteLength_append, ← hposition]
    rfl

/-- Over a character that is in front. -/
theorem StandsIn.stepIn_eq {c : Char} {rest : List Char} (h : StandsIn source s)
    (hrest : s.rest = c :: rest) :
    s.stepIn source = some { s with position := s.position + c.utf8Size, rest } ∧
      StandsIn source { s with position := s.position + c.utf8Size, rest } := by
  obtain ⟨left, hsource, hposition⟩ := h
  have hstart : byteLength (left ++ [c]) = s.position + c.utf8Size := by simp [hposition]
  have hsource' : source = left ++ [c] ++ rest := by simp [hsource, hrest]
  have hslice : slice? source ⟨s.position + c.utf8Size, byteLength source⟩ = some rest :=
    slice?_eq_some_iff.mpr ⟨left ++ [c], [], by simpa using hsource', hstart, by rw [hsource']⟩
  refine ⟨?_, left ++ [c], hsource', hstart.symm⟩
  simp [Scanner.stepIn, hrest, hslice]

/-- Character by character, the whole run is skipped. -/
theorem StandsIn.skipIn_eq (h : StandsIn source s) (p : Char → Bool) :
    s.skipIn source p = some (s.skip p) := by
  induction hrest : s.rest generalizing s with
  | nil =>
    have hskip : s.skip p = s := by
      cases s
      simp_all [Scanner.skip]
    rw [Scanner.skipIn, hskip]
    split
    · rfl
    · next hfront => simp [hrest] at hfront
  | cons c rest ih =>
    obtain ⟨hstep, hstands⟩ := h.stepIn_eq hrest
    rw [Scanner.skipIn]
    split
    · next hfront => simp [hrest] at hfront
    · next d hfront =>
      obtain rfl : c = d := by simpa [hrest] using hfront
      split
      · next hc =>
        split
        · next hnone => cases hstep.symm.trans hnone
        · next behind hsome =>
          obtain rfl := Option.some.inj (hstep.symm.trans hsome)
          rw [ih hstands rfl]
          simp [Scanner.skip, hrest, hc, Nat.add_assoc]
      · next hc =>
        cases s
        simp_all [Scanner.skip]

theorem StandsIn.numberIn_eq (h : StandsIn source s) : s.numberIn source = some s.number := by
  have hslice := h.slice (List.takeWhile_append_dropWhile (p := Char.isDigit)).symm
  rw [Scanner.numberIn, h.skipIn_eq]
  show (slice? source ⟨s.position, s.position + _⟩).bind _ = _
  rw [hslice]
  rfl

theorem StandsIn.tokenIn_eq (h : StandsIn source s) : s.tokenIn source = some s.token := by
  unfold Scanner.tokenIn Scanner.token
  cases hrest : s.rest with
  | nil => rfl
  | cons c rest =>
    obtain ⟨hstep, -⟩ := h.stepIn_eq hrest
    dsimp only [List.head?_cons]
    split
    · exact h.numberIn_eq
    · cases markKind? c with
      | none => rfl
      | some kind =>
        rw [hstep]
        rfl

theorem StandsIn.scanIn_eq (h : StandsIn source s) : s.scanIn source = some s.scan := by
  rw [Scanner.scanIn, h.skipIn_eq]
  exact (h.skip isBlank).tokenIn_eq

theorem StandsIn.token (h : StandsIn source s) : StandsIn source s.token.2 := by
  unfold Scanner.token
  split
  · exact h
  · next c rest hrest =>
    split
    · exact h.skip Char.isDigit
    · split
      · exact (h.stepIn_eq hrest).2
      · exact h

theorem StandsIn.scan (h : StandsIn source s) : StandsIn source s.scan.2 :=
  (h.skip isBlank).token

theorem StandsIn.pull (h : StandsIn source s) (request : Pull) :
    StandsIn source (s.pull request).2 := by
  rcases s.pull_cases request with ⟨-, -, hnone⟩ | ⟨-, hplace⟩
  · rwa [hnone]
  · obtain ⟨left, hsource, hposition⟩ := h.scan
    exact ⟨left, hplace.rest_eq ▸ hsource, hplace.position_eq.trans hposition⟩

theorem StandsIn.pullIn_eq (h : StandsIn source s) (request : Pull) :
    s.pullIn source request = some (s.pull request) := by
  cases request with
  | token =>
    rw [pullIn, h.scanIn_eq]
    rfl
  | item =>
    rw [pullIn, Scanner.pull, next?]
    split
    · rfl
    · rw [h.scanIn_eq]
      rfl

/-- A scanner that stands in a text takes no slice that does not exist, whatever it is asked for. -/
theorem StandsIn.pullsIn_eq (h : StandsIn source s) (requests : List Pull) :
    s.pullsIn source requests = some (s.answers requests, s.afterPulls requests) ∧
      StandsIn source (s.afterPulls requests) := by
  induction requests generalizing s with
  | nil => exact ⟨rfl, h⟩
  | cons request requests ih =>
    obtain ⟨hrest, hstands⟩ := ih (h.pull request)
    refine ⟨?_, hstands⟩
    rw [pullsIn, h.pullIn_eq]
    show (Option.bind ((s.pull request).2.pullsIn source requests) _) = _
    rw [hrest]
    rfl

end

/-- A scanner that does not stand in the text cuts it within a character. -/
example : (⟨0, ['1'], false⟩ : Scanner).stepIn ['é'] = none := by decide

end Calculator.Scanner
