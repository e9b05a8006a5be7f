import Mathlib.Data.List.ReduceOption
import Calculator.Proofs.Parse.FaultPlaces
import Calculator.Proofs.Reader.History

/-!
# Scanning in two ways

A scanner can be asked for the next token, which it always answers, and for the next item of its stream,
which it answers until the stream has ended. Both move the same place, but only the stream has an end, and
only the stream looks for it. Here stands what holds of a scanner that is asked in both ways, in any order
(`interleaved_pulls`).

Nothing that is read depends on whether the stream has ended (`SamePlace.scan`). So any requests that are
answered are answered as so many requests for tokens would be, and the end of the stream is told by the
requests for items alone (`finished_afterPulls_iff`).
-/

namespace Calculator

open Text

/-- The character of a text that starts at an offset. -/
def Text.CharAt (source : List Char) (offset : Nat) (c : Char) : Prop :=
  ∃ left right, source = left ++ c :: right ∧ byteLength left = offset

namespace Scanner

/-! ## Requests -/

/-- What a scanner can be asked for: the next token, or the next item of its stream. -/
inductive Pull where
  | token
  | item
  deriving DecidableEq, Repr

/-- The answer to a request, if there is one, and the scanner behind it. -/
def pull (s : Scanner) : Pull → Option Item × Scanner
  | .token => (some s.scan.1, s.scan.2)
  | .item => s.next?

/-- The answers to requests, one after the other. -/
def answers (s : Scanner) : List Pull → List (Option Item)
  | [] => []
  | request :: requests => (s.pull request).1 :: (s.pull request).2.answers requests

/-- The scanner behind requests. -/
def afterPulls (s : Scanner) (requests : List Pull) : Scanner :=
  requests.foldl (fun s request => (s.pull request).2) s

@[simp] theorem afterPulls_cons (s : Scanner) (request : Pull) (requests : List Pull) :
    s.afterPulls (request :: requests) = (s.pull request).2.afterPulls requests := rfl

/-! ## Places -/

/-- Two scanners stand at one place of one text. The stream of only one of them may have ended. -/
structure SamePlace (s t : Scanner) : Prop where
  position_eq : t.position = s.position
  rest_eq : t.rest = s.rest

theorem SamePlace.refl (s : Scanner) : SamePlace s s := ⟨rfl, rfl⟩

theorem SamePlace.symm {s t : Scanner} (h : SamePlace s t) : SamePlace t s :=
  ⟨h.position_eq.symm, h.rest_eq.symm⟩

theorem SamePlace.trans {s t u : Scanner} (h : SamePlace s t) (h' : SamePlace t u) : SamePlace s u :=
  ⟨h'.position_eq.trans h.position_eq, h'.rest_eq.trans h.rest_eq⟩

theorem SamePlace.token {s t : Scanner} (h : SamePlace s t) :
    t.token.1 = s.token.1 ∧ SamePlace s.token.2 t.token.2 := by
  obtain ⟨position, rest, finished⟩ := t
  obtain ⟨rfl, rfl⟩ := h
  unfold Scanner.token
  dsimp only
  split
  · exact ⟨rfl, rfl, rfl⟩
  · split
    · exact ⟨rfl, rfl, rfl⟩
    · split <;> exact ⟨rfl, rfl, rfl⟩

/-- What is scanned depends on the place alone. -/
theorem SamePlace.scan {s t : Scanner} (h : SamePlace s t) :
    t.scan.1 = s.scan.1 ∧ SamePlace s.scan.2 t.scan.2 := by
  refine SamePlace.token ⟨?_, ?_⟩
  · rw [skip, skip, h.position_eq, h.rest_eq]
  · rw [skip, skip, h.rest_eq]

/-- A request is answered by a scan, or not at all because the stream has ended. -/
theorem pull_cases (s : Scanner) (request : Pull) :
    (request = .item ∧ s.finished = true ∧ s.pull request = (none, s)) ∨
      ((s.pull request).1 = some s.scan.1 ∧ SamePlace s.scan.2 (s.pull request).2) := by
  cases request with
  | token => exact Or.inr ⟨rfl, .refl _⟩
  | item =>
    rw [pull, next?]
    split
    · next hfinished => exact Or.inl ⟨rfl, hfinished, rfl⟩
    · exact Or.inr ⟨rfl, rfl, rfl⟩

theorem pull_of_answer {s : Scanner} {request : Pull} {item : Item}
    (h : (s.pull request).1 = some item) :
    s.scan.1 = item ∧ SamePlace s.scan.2 (s.pull request).2 := by
  rcases s.pull_cases request with ⟨-, -, hnone⟩ | ⟨hanswer, hplace⟩
  · rw [hnone] at h
    cases h
  · exact ⟨Option.some.inj (hanswer.symm.trans h), hplace⟩

theorem pull_of_no_answer {s : Scanner} {request : Pull} (h : (s.pull request).1 = none) :
    (s.pull request).2 = s := by
  rcases s.pull_cases request with ⟨-, -, hnone⟩ | ⟨hanswer, -⟩
  · rw [hnone]
  · rw [hanswer] at h
    cases h

/-- Requests that are answered are answered as so many requests for tokens. -/
theorem SamePlace.answers_eq {s t : Scanner} (h : SamePlace s t) (requests : List Pull) :
    t.answers (.replicate (s.answers requests).reduceOption.length .token) =
      (s.answers requests).reduceOption.map some := by
  induction requests generalizing s t with
  | nil => rfl
  | cons request requests ih =>
    rw [answers]
    rcases s.pull_cases request with ⟨-, -, hnone⟩ | ⟨hanswer, hplace⟩
    · rw [hnone, List.reduceOption_cons_of_none]
      exact ih h
    · obtain ⟨hscan, hbehind⟩ := h.scan
      have hrest : SamePlace (s.pull request).2 t.scan.2 := hplace.symm.trans hbehind
      rw [hanswer, List.reduceOption_cons_of_some, List.length_cons, List.replicate_succ, answers,
        List.map_cons, ← ih hrest, ← hscan]
      rfl

/-! ## The end of the stream -/

theorem pull_finished_iff (s : Scanner) (request : Pull) :
    (s.pull request).2.finished = true ↔ s.finished = true ∨
      request = .item ∧ ∃ item, (s.pull .item).1 = some item ∧ item.isLast = true := by
  cases request with
  | token => simp [pull, scan_finished]
  | item => cases hfinished : s.finished <;> simp [pull, next?, hfinished]

/-- The stream has ended exactly if a request for an item was answered with its last one. -/
theorem finished_afterPulls_iff (s : Scanner) (requests : List Pull) :
    (s.afterPulls requests).finished = true ↔ s.finished = true ∨
      ∃ before after item, requests = before ++ .item :: after ∧
        ((s.afterPulls before).pull .item).1 = some item ∧ item.isLast = true := by
  induction requests generalizing s with
  | nil => simp [afterPulls]
  | cons request requests ih =>
    rw [afterPulls_cons, ih, pull_finished_iff, or_assoc]
    refine or_congr_right ⟨?_, ?_⟩
    · rintro (⟨rfl, item, hanswer, hlast⟩ | ⟨before, after, item, rfl, hanswer, hlast⟩)
      · exact ⟨[], requests, item, rfl, hanswer, hlast⟩
      · exact ⟨request :: before, after, item, rfl, hanswer, hlast⟩
    · rintro ⟨before, after, item, hrequests, hanswer, hlast⟩
      cases before with
      | nil =>
        obtain ⟨rfl, rfl⟩ := List.cons.inj hrequests
        exact Or.inl ⟨rfl, item, hanswer, hlast⟩
      | cons first before =>
        obtain ⟨rfl, rfl⟩ := List.cons.inj hrequests
        exact Or.inr ⟨before, after, item, rfl, hanswer, hlast⟩

theorem pull_item_eq_none_iff (s : Scanner) : (s.pull .item).1 = none ↔ s.finished = true := by
  cases hfinished : s.finished <;> simp [pull, next?, hfinished]

/-! ## Where a scanner stands -/

theorem Behind.samePlace {source left : List Char} {s t : Scanner} (h : Behind source left s)
    (hplace : SamePlace s t) : Behind source left t := by
  obtain ⟨hposition, hrest⟩ := hplace
  exact ⟨hrest ▸ h.source_eq, hposition.trans h.position_eq, hrest ▸ h.apart⟩

theorem Behind.pull {source left : List Char} {s : Scanner} (h : Behind source left s)
    (request : Pull) : ∃ left', Behind source left' (s.pull request).2 := by
  rcases s.pull_cases request with ⟨-, -, hnone⟩ | ⟨-, hplace⟩
  · exact ⟨left, by rwa [hnone]⟩
  · obtain ⟨left', hbehind⟩ := h.scan
    exact ⟨left', hbehind.samePlace hplace⟩

/-- Behind any requests a scanner stands behind some of the text. -/
theorem Behind.afterPulls {source left : List Char} {s : Scanner} (h : Behind source left s)
    (requests : List Pull) : ∃ left', Behind source left' (s.afterPulls requests) := by
  induction requests generalizing s left with
  | nil => exact ⟨left, h⟩
  | cons request requests ih =>
    obtain ⟨left', hbehind⟩ := h.pull request
    exact ih hbehind

/-- The character in front of a scanner is the one at its place in the text. -/
theorem Behind.head?_eq_some_iff {source left : List Char} {s : Scanner} (h : Behind source left s)
    {c : Char} : s.rest.head? = some c ↔ CharAt source s.position c := by
  constructor
  · intro hc
    obtain ⟨rest, hrest⟩ := List.head?_eq_some_iff.mp hc
    exact ⟨left, rest, by rw [← hrest]; exact h.source_eq, h.position_eq.symm⟩
  · rintro ⟨left', right, hsource, hplace⟩
    obtain ⟨-, hrest⟩ :=
      cut_unique (h.source_eq.symm.trans hsource) (h.position_eq.symm.trans hplace.symm)
    rw [hrest]
    rfl

theorem Behind.head?_eq_none_iff {source left : List Char} {s : Scanner} (h : Behind source left s) :
    s.rest.head? = none ↔ s.position = byteLength source := by
  have hlength : byteLength source = s.position + byteLength s.rest := by
    rw [h.position_eq, ← byteLength_append, ← h.source_eq]
  rw [List.head?_eq_none_iff, hlength]
  constructor
  · intro hrest
    rw [hrest]
    rfl
  · intro hposition
    exact eq_nil_of_byteLength_eq_zero (by omega)

/-! ## Where a scanner stays and where it goes on -/

/-- An item that a scanner finds again and again: the end of the text, and a character that starts no
token. -/
inductive Recurs : Item → Prop where
  | ending {token : Token} (hend : token.kind = .endOfInput) : Recurs (.ok token)
  | character (c : Char) (span : Span) : Recurs (.error ⟨.unexpectedCharacter c, span⟩)

theorem scan_end {s : Scanner} (h : ∀ c ∈ s.rest, isBlank c = true) :
    s.scan.2 = s.skip isBlank := by
  have hrest : (s.skip isBlank).rest = [] := List.dropWhile_eq_nil_iff.mpr h
  rw [scan, Scanner.token, hrest]

/-- What a scanner finds again it finds where it then stands. -/
theorem Recurs.scan_again {s : Scanner} (h : Recurs s.scan.1) : s.scan.2.scan = (s.scan.1, s.scan.2) := by
  generalize hitem : s.scan.1 = item at h
  cases h with
  | ending hend =>
    have hbehind := scan_end (blank_of_scan_end hitem hend)
    rw [← hitem, hbehind, scan, skip_skip, ← scan]
    exact Prod.ext rfl hbehind
  | character c span =>
    rcases scan_error (Prod.ext hitem rfl) with ⟨-, -, -, hagain⟩ | ⟨digits, hcause, -⟩
    · exact hagain
    · cases hcause

/-- A scanner that a scan does not move stays where it is, whatever it is asked for. -/
theorem SamePlace.afterPulls {s t : Scanner} (hfixed : s.scan.2 = s) (h : SamePlace s t)
    (requests : List Pull) : SamePlace s (t.afterPulls requests) := by
  induction requests generalizing t with
  | nil => exact h
  | cons request requests ih =>
    rw [afterPulls_cons]
    refine ih ?_
    rcases t.pull_cases request with ⟨-, -, hnone⟩ | ⟨-, hplace⟩
    · rwa [hnone]
    · have hbehind := h.scan.2
      rw [hfixed] at hbehind
      exact hbehind.trans hplace

/-- Once an item has been found that recurs, every request for a token finds it again, and the scanner
stays. -/
theorem Recurs.pull_afterPulls {s : Scanner} {request : Pull} {item : Item} (h : Recurs item)
    (hanswer : (s.pull request).1 = some item) (later : List Pull) :
    ((s.pull request).2.afterPulls later).pull .token =
        (some item, (s.pull request).2.afterPulls later) ∧
      ((s.pull request).2.afterPulls later).position = (s.pull request).2.position := by
  obtain ⟨hitem, hplace⟩ := pull_of_answer hanswer
  have hagain := Recurs.scan_again (s := s) (hitem ▸ h)
  rw [hitem] at hagain
  have hfixed : s.scan.2.scan.2 = s.scan.2 := by rw [hagain]
  have hlater := hplace.afterPulls hfixed later
  generalize (s.pull request).2.afterPulls later = t at *
  obtain ⟨hscan, hstays⟩ := hlater.scan
  rw [hagain] at hscan hstays
  have hsame : t.scan.2 = t := by
    have hfinished := scan_finished t
    obtain ⟨hposition, hrest⟩ := hlater.symm.trans hstays
    generalize t.scan.2 = behind at *
    cases behind
    cases t
    simp_all
  exact ⟨Prod.ext (congrArg some hscan) hsame, hlater.position_eq.trans hplace.position_eq.symm⟩

/-- A number that is too large is a run of digits in front of the scanner, and the scanner moves on to
where the run stops. -/
theorem scan_numberTooLarge {s behind : Scanner} {digits : List Char} {span : Span}
    (hscan : s.scan = (.error ⟨.numberTooLarge digits, span⟩, behind)) :
    ∃ gap, s.rest = gap ++ (digits ++ behind.rest) ∧ (∀ c ∈ gap, isBlank c = true) ∧ digits ≠ [] ∧
      (∀ c ∈ digits, c.isDigit = true) ∧ NoDigit behind.rest ∧
      behind.position = s.position + byteLength gap + byteLength digits ∧
      span = ⟨s.position + byteLength gap, behind.position⟩ := by
  unfold scan Scanner.token at hscan
  split at hscan
  · cases congrArg Prod.fst hscan
  · next c rest hrest =>
    split at hscan
    · next hc =>
      unfold number numberItem at hscan
      dsimp only at hscan
      split at hscan
      · cases congrArg Prod.fst hscan
      · obtain ⟨hitem, rfl⟩ := Prod.mk.inj hscan
        obtain ⟨hcause, rfl⟩ := Fault.mk.inj (Except.error.inj hitem)
        obtain rfl := Cause.numberTooLarge.inj hcause
        refine ⟨s.rest.takeWhile isBlank, ?_, fun d hd => List.mem_takeWhile_imp hd, ?_,
          fun d hd => List.mem_takeWhile_imp hd, fun d hd => head?_dropWhile hd, rfl, rfl⟩
        · simp only [skip, List.takeWhile_append_dropWhile]
        · rw [hrest, List.takeWhile_cons_of_pos hc]
          exact List.cons_ne_nil _ _
    · split at hscan
      · cases congrArg Prod.fst hscan
      · obtain ⟨hcause, -⟩ := Fault.mk.inj (Except.error.inj (Prod.mk.inj hscan).1)
        cases hcause

/-- A request that is answered with a token moves the scanner on to where the token stops. -/
theorem Behind.pull_token {source left : List Char} {s : Scanner} {request : Pull} {token : Token}
    (h : Behind source left s) (hanswer : (s.pull request).1 = some (.ok token))
    (hmore : token.kind ≠ .endOfInput) :
    s.position ≤ token.span.start ∧ token.span.start < token.span.stop ∧
      (s.pull request).2.position = token.span.stop := by
  obtain ⟨hitem, hplace⟩ := pull_of_answer hanswer
  obtain ⟨gap, -, hfills, hbehind⟩ := h.step (Prod.ext hitem rfl) hmore
  obtain ⟨hstart, hstop⟩ := hfills.places
  refine ⟨?_, hfills.start_lt_stop, ?_⟩
  · rw [hstart, h.position_eq, byteLength_append]
    exact Nat.le_add_right _ _
  · rw [hplace.position_eq, hbehind.position_eq, hstop]

/-- A request that is answered with a number that is too large moves the scanner on behind the whole run
of its digits. -/
theorem Behind.pull_numberTooLarge {source left : List Char} {s : Scanner} {request : Pull}
    {digits : List Char} {span : Span} (h : Behind source left s)
    (hanswer : (s.pull request).1 = some (.error ⟨.numberTooLarge digits, span⟩)) :
    ∃ before behind, source = before ++ digits ++ behind ∧ DigitRun before digits behind ∧
      span = ⟨byteLength before, byteLength (before ++ digits)⟩ ∧
      (s.pull request).2.position = byteLength (before ++ digits) := by
  obtain ⟨hitem, hplace⟩ := pull_of_answer hanswer
  obtain ⟨gap, hrest, hgap, hne, hdigits, hno, hposition, hspan⟩ :=
    scan_numberTooLarge (Prod.ext hitem rfl)
  have hstarts : ∀ c, (left ++ gap).getLast? = some c → c.isDigit = false := by
    obtain ⟨first, others, rfl⟩ := List.exists_cons_of_ne_nil hne
    exact h.starts hrest hgap (hdigits first List.mem_cons_self)
  have hstop : s.scan.2.position = byteLength (left ++ gap ++ digits) := by
    rw [hposition, h.position_eq, byteLength_append, byteLength_append]
  refine ⟨left ++ gap, s.scan.2.rest, ?_, ⟨hne, hdigits, hstarts, hno⟩, ?_, ?_⟩
  · rw [h.source_eq, hrest]
    simp
  · rw [hspan, hstop, h.position_eq, ← byteLength_append]
  · rw [hplace.position_eq, hstop]

end Scanner

/-- A scanner of a text that has been asked for tokens and for items, in any order. It stands in front of
a character of the text or at its end, and has that character in front of it. It never moves back, and with
a token it moves on to where that stops. Without the requests that had no answer, it has answered as a new
scanner answers as many requests for tokens. A request for an item that has no answer leaves it unchanged,
and there is none exactly if an earlier one had the last item of the stream for its answer. Behind the end
of the text, and in front of a character that starts no token, it stays, and finds the same whenever it is
asked for a token. Over a number that is too large it moves on, to the end of the digits. -/
theorem interleaved_pulls (source : List Char) (requests : List Scanner.Pull) :
    let s := (Scanner.ofSource source).afterPulls requests
    let given := ((Scanner.ofSource source).answers requests).reduceOption
    (Boundary source s.position ∧ s.position ≤ byteLength source ∧
      (∀ c, s.rest.head? = some c ↔ CharAt source s.position c) ∧
      (s.rest.head? = none ↔ s.position = byteLength source)) ∧
    (∀ request, s.position ≤ (s.pull request).2.position ∧
      ∀ token, (s.pull request).1 = some (.ok token) → token.kind ≠ .endOfInput →
        s.position ≤ token.span.start ∧ token.span.start < token.span.stop ∧
          (s.pull request).2.position = token.span.stop) ∧
    (Scanner.ofSource source).answers (.replicate given.length .token) = given.map some ∧
    ((s.pull .item).1 = none → (s.pull .item).2 = s) ∧
    ((s.pull .item).1 = none ↔ ∃ before after item, requests = before ++ .item :: after ∧
      (((Scanner.ofSource source).afterPulls before).pull .item).1 = some item ∧
        item.isLast = true) ∧
    (∀ request item, (s.pull request).1 = some item → Scanner.Recurs item →
      ∀ later, let t := (s.pull request).2.afterPulls later
        t.pull .token = (some item, t) ∧ t.position = (s.pull request).2.position) ∧
    ∀ request digits span, (s.pull request).1 = some (.error ⟨.numberTooLarge digits, span⟩) →
      ∃ before behind, source = before ++ digits ++ behind ∧ DigitRun before digits behind ∧
        span = ⟨byteLength before, byteLength (before ++ digits)⟩ ∧
        (s.pull request).2.position = byteLength (before ++ digits) := by
  intro s given
  obtain ⟨left, h⟩ := (Scanner.behind_ofSource source).afterPulls requests
  have hboundary : Boundary source s.position := ⟨left, s.rest, h.source_eq, h.position_eq.symm⟩
  refine ⟨⟨hboundary, hboundary.le, fun c => h.head?_eq_some_iff, h.head?_eq_none_iff⟩,
    fun request => ⟨?_, fun token => h.pull_token⟩, (Scanner.SamePlace.refl _).answers_eq requests,
    Scanner.pull_of_no_answer, ?_, fun request item hanswer hrecurs => hrecurs.pull_afterPulls hanswer,
    fun request digits span => h.pull_numberTooLarge⟩
  · rcases s.pull_cases request with ⟨-, -, hnone⟩ | ⟨-, hplace⟩
    · rw [hnone]
    · rw [hplace.position_eq]
      exact Scanner.position_le_scan s
  · rw [Scanner.pull_item_eq_none_iff, Scanner.finished_afterPulls_iff]
    exact or_iff_right Bool.false_ne_true

/-- The stream ends with a number that is too large. A request for an item has no answer then, but a token
is still looked for behind the digits. The character that is found there is found from then on. -/
theorem interleaved_pulls_behind_end :
    let source := "7 99999999999999999999$".toList
    let s := (Scanner.ofSource source).afterPulls [.item, .item]
    let dollar : Item := .error ⟨.unexpectedCharacter '$', ⟨22, 23⟩⟩
    (Scanner.ofSource source).answers [.item, .item, .item, .token] =
      [some (.ok (.integer ⟨7, by decide, by decide⟩ ['7'] ⟨0, 1⟩)),
        some (.error ⟨.numberTooLarge "99999999999999999999".toList, ⟨2, 22⟩⟩), none, some dollar] ∧
    (Scanner.ofSource source).answers [.token, .token, .token] =
      [some (.ok (.integer ⟨7, by decide, by decide⟩ ['7'] ⟨0, 1⟩)),
        some (.error ⟨.numberTooLarge "99999999999999999999".toList, ⟨2, 22⟩⟩), some dollar] ∧
    (s.pull .item).2 = s ∧ CharAt source s.position '$' ∧
    ∀ later, ((s.pull .token).2.afterPulls later).pull .token =
      (some dollar, (s.pull .token).2.afterPulls later) := by
  intro source s dollar
  have hanswers : (Scanner.ofSource source).answers [.item, .item, .item, .token] =
      [some (.ok (.integer ⟨7, by decide, by decide⟩ ['7'] ⟨0, 1⟩)),
        some (.error ⟨.numberTooLarge "99999999999999999999".toList, ⟨2, 22⟩⟩), none, some dollar] := by
    rfl
  have hnone : (s.pull .item).1 = none := by rfl
  have hdollar : (s.pull .token).1 = some dollar := by rfl
  have hfront : s.rest.head? = some '$' := by rfl
  obtain ⟨-, -, hfresh, -⟩ := interleaved_pulls source [.item, .item, .item, .token]
  rw [hanswers] at hfresh
  obtain ⟨⟨-, -, hplace, -⟩, -, -, hstays, -, hrecurs, -⟩ := interleaved_pulls source [.item, .item]
  exact ⟨hanswers, hfresh, hstays hnone, (hplace '$').mp hfront,
    fun later => (hrecurs .token dollar hdollar (.character '$' ⟨22, 23⟩) later).1⟩

end Calculator
