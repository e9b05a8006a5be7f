import Calculator.Proofs.Token.Pieces

/-!
# Texts one behind the other

The stream of two texts, one behind the other, is the stream of the first without its end and then the
stream of the second with all places moved (`items_append`). Only a number at the seam can spoil that: the
first text must not end with a digit where the second starts with one.

A scan looks behind its token only for a digit that goes on with a number. So a scanner reads the same
tokens whatever text is put behind its own, as long as no digit does (`Reads.followedBy`). Where the first
text has ended there are blanks at most, and the scan of the second text skips them as its own.
-/

namespace Calculator

open Text

namespace Scanner

/-! ## More text behind -/

/-- No number goes on from one text into the text behind it. -/
def Apart (left right : List Char) : Prop :=
  ∀ c, left.getLast? = some c → c.isDigit = true → NoDigit right

/-- The scanner with more text behind its own. -/
def followedBy (more : List Char) (s : Scanner) : Scanner := { s with rest := s.rest ++ more }

theorem Apart.of_append {first left right : List Char} (h : Apart (first ++ left) right) :
    Apart left right := by
  intro c hc
  exact h c (by rw [List.getLast?_append, hc]; rfl)

/-- A number does not go on with what stands behind it, with more text or without. -/
theorem Apart.noDigit_append {left middle right : List Char} (h : Apart (left ++ middle) right)
    (hne : left ≠ []) (hdigits : ∀ c ∈ left, c.isDigit = true) (hmiddle : NoDigit middle) :
    NoDigit (middle ++ right) := by
  cases middle with
  | nil =>
    rw [List.append_nil] at h
    exact h _ (List.getLast?_eq_some_getLast hne) (hdigits _ (List.getLast_mem hne))
  | cons c middle => exact hmiddle

/-- More text behind a token that is read does not change it. -/
theorem scan_followedBy {s behind : Scanner} {token : Token} {more : List Char}
    (hscan : s.scan = (.ok token, behind)) (hmore : token.kind ≠ .endOfInput)
    (hapart : Apart s.rest more) :
    (s.followedBy more).scan = (.ok token, behind.followedBy more) ∧ Apart behind.rest more := by
  obtain ⟨gap, lexeme, hrest, hgap, hspells, hposition, hno⟩ := exists_spells hscan hmore
  have hfinished : behind.finished = s.finished := by
    have h := scan_finished s
    rwa [hscan] at h
  rw [hrest] at hapart
  have hstops : token.kind = .integer → NoDigit (behind.rest ++ more) := by
    intro hkind
    cases hspells with
    | number hne hdigits => exact hapart.of_append.noDigit_append hne hdigits (hno hkind)
    | mark hmark => exact absurd hkind (mark_of_markKind? hmark).2.2.1
  refine ⟨?_, hapart.of_append.of_append⟩
  have hagain : (⟨s.position, gap ++ (lexeme ++ (behind.rest ++ more)), s.finished⟩ : Scanner).scan =
      _ := scan_of_spells hgap hspells hstops
  simpa [followedBy, hrest, hposition, hfinished] using hagain

/-- What a scanner reads it reads with more text behind its own, too. -/
theorem Reads.followedBy {s t : Scanner} {tokens : List Token} (h : Reads s tokens t)
    {more : List Char} (hapart : Apart s.rest more) :
    Reads (s.followedBy more) tokens (t.followedBy more) := by
  induction h with
  | nil s => exact .nil _
  | cons hscan hmore _ ih =>
    obtain ⟨hagain, hrest⟩ := scan_followedBy hscan hmore hapart
    exact .cons hagain hmore (ih hrest)

/-! ## Streams at another place -/

theorem items_of_blank {gap : List Char} (hgap : ∀ c ∈ gap, isBlank c = true) (position : Nat)
    (rest : List Char) :
    (⟨position, gap ++ rest, false⟩ : Scanner).items.1 =
      (⟨position + byteLength gap, rest, false⟩ : Scanner).items.1 := by
  have hnext : (⟨position, gap ++ rest, false⟩ : Scanner).next? =
      (⟨position + byteLength gap, rest, false⟩ : Scanner).next? := by
    unfold next?
    rw [scan_append_of_blank hgap]
    rfl
  rw [items, items, hnext]

/-- The stream of a scanner at another offset, moved. -/
theorem items_shift {s : Scanner} (hs : s.finished = false) (offset : Nat) :
    (s.shift offset).items.1 = s.items.1.map (Item.shift offset) := by
  obtain ⟨tokens, t, hreads, hlast⟩ := exists_reads s
  have hlast' : ((t.shift offset).scan.1).isLast = true := by
    rw [scan_shift]
    cases hitem : t.scan.1 with
    | error fault => rfl
    | ok token => rwa [hitem] at hlast
  have hstreams : s.Streams tokens t.scan.1 := (streams_iff hs).mpr ⟨t, hreads, rfl, hlast⟩
  have hmoved : (s.shift offset).Streams (tokens.map (Token.shift offset)) (t.shift offset).scan.1 :=
    (streams_iff (s := s.shift offset) hs).mpr ⟨_, hreads.shift offset, rfl, hlast'⟩
  rw [hmoved, hstreams, scan_shift, List.map_append, List.map_map, List.map_map]
  rfl

end Scanner

/-- The stream of two texts, one behind the other. Behind the tokens of the first, which is streamed to
its end, come the items of the second, moved by the length of the first. No number may stand across the
seam. -/
theorem items_append {left right : List Char} {last : Token}
    (hend : (Scanner.ofSource left).items.1.getLast? = some (.ok last))
    (hseam : ∀ c d, left.getLast? = some c → right.head? = some d →
      ¬ (c.isDigit = true ∧ d.isDigit = true)) :
    last = .endOfInput (byteLength left) ∧
      (Scanner.ofSource (left ++ right)).items.1 =
        (Scanner.ofSource left).items.1.dropLast ++
          (Scanner.ofSource right).items.1.map (Item.shift (byteLength left)) := by
  obtain ⟨tokens, t, hreads, hlast⟩ := Scanner.exists_reads (.ofSource left)
  have hstreams : (Scanner.ofSource left).Streams tokens t.scan.1 :=
    (Scanner.streams_iff rfl).mpr ⟨t, hreads, rfl, hlast⟩
  have hitem : t.scan.1 = .ok last := by
    rw [hstreams, List.getLast?_concat] at hend
    exact Option.some.inj hend
  -- where the first text has ended, only blanks are left of it
  have hkind : last.kind = .endOfInput := by simpa [hitem, Item.isLast] using hlast
  have hblank := Scanner.blank_of_scan_end hitem hkind
  obtain ⟨text, hleft, hposition, -⟩ := hreads.exists_text
  have hlength : t.position + byteLength t.rest = byteLength left := by
    have hwhole : left = text ++ t.rest := hleft
    rw [hposition, hwhole, byteLength_append]
    exact congrArg (· + _) (Nat.zero_add _)
  have hapart : Scanner.Apart left right := by
    intro c hc hdigit d hd
    cases hdigit' : d.isDigit with
    | false => rfl
    | true => exact absurd ⟨hdigit, hdigit'⟩ (hseam c d hc hd)
  refine ⟨?_, ?_⟩
  · have hends := Scanner.scan_of_blank hblank
    rw [hitem, hlength] at hends
    exact Except.ok.inj hends
  · have hopen : t.finished = false := hreads.finished_eq
    have hrest : (t.followedBy right).items.1 =
        (Scanner.ofSource right).items.1.map (Item.shift (byteLength left)) := by
      have hblanks := Scanner.items_of_blank hblank t.position right
      rw [hlength] at hblanks
      rw [← Scanner.items_shift rfl, Scanner.followedBy, hopen, hblanks]
      rfl
    rw [hstreams, List.dropLast_concat, ← hrest]
    exact (hreads.followedBy hapart).items_eq rfl

/-- The second text starts with a digit behind the wide blank of the first, and goes wrong further on. -/
theorem items_append_wide_blank :
    (Scanner.ofSource ("8\u3000".toList ++ "2+$".toList)).items.1 =
      (Scanner.ofSource "8\u3000".toList).items.1.dropLast ++
        (Scanner.ofSource "2+$".toList).items.1.map (Item.shift 4) ∧
    (Scanner.ofSource "2+$".toList).items.1.getLast? =
      some (.error ⟨.unexpectedCharacter '$', ⟨2, 3⟩⟩) ∧
    (Scanner.ofSource ("8\u3000".toList ++ "2+$".toList)).items.1.getLast? =
      some (.error ⟨.unexpectedCharacter '$', ⟨6, 7⟩⟩) := by
  have hend : (Scanner.ofSource "8\u3000".toList).items.1.getLast? = some (.ok (.endOfInput 4)) := by
    decide +kernel
  have hseam : ∀ c d, "8\u3000".toList.getLast? = some c → "2+$".toList.head? = some d →
      ¬ (c.isDigit = true ∧ d.isDigit = true) := by
    intro c d hc _
    obtain rfl : '\u3000' = c := Option.some.inj hc
    exact fun h => absurd h.1 (by decide)
  exact ⟨(items_append hend hseam).2, by decide +kernel, by decide +kernel⟩

/-- Two digits at the seam are read as one number. -/
example : (Scanner.ofSource ("1".toList ++ "2".toList)).items.1.length = 2 := by decide +kernel

end Calculator
