import Calculator.Proofs.Grammar.Operands
import Calculator.Proofs.Parse.FaultPlaces
import Calculator.Proofs.Reader.Calls

/-!
# Reading on from the middle of a text

A reader can be made behind any scans of a text, and it can read one expression after the other. Whatever
has been scanned and read by then leaves no trace in what comes next: the reader answers as one that is
made on the rest of the text alone, with all places moved by where that rest starts
(`answers_from_middle`).

The two read alike, in the sense of `Likeness` (`Scanner.moved`). They differ in the end of the token taken
last, of which the newer reader knows nothing. But that end is only looked at where a parenthesis is
missing, and by then both have taken the one that is not closed.
-/

namespace Calculator

open Text

/-! ## Texts at another offset -/

theorem Scanner.shift_ofSource {s : Scanner} (hopen : s.finished = false) :
    (ofSource s.rest).shift s.position = s := by
  rw [Scanner.shift, ofSource, Nat.add_zero, ← hopen]

/-- Scanners read alike at two offsets, with all places moved. -/
def Scanner.moved (offset : Nat) : Likeness where
  scanners s s' := s' = s.shift offset
  places a a' := a' = a.shift offset
  blamed a a' := a' = a.shift offset
  scan := by
    rintro s _ rfl
    rw [scan_shift]
    cases s.scan.1 with
    | ok token => exact .result ⟨rfl, rfl, rfl, rfl, fun _ => rfl⟩
    | error fault => exact .fault rfl
  scan_behind := by
    rintro s _ rfl
    rw [scan_shift]
  cover := by
    rintro a _ b _ rfl rfl
    exact (Span.shift_cover offset a b).symm
  blamed_of_places h := h
  blamed_behind := by
    rintro a _ rfl
    rfl

/-- An expression that is read with all places moved is the moved expression. -/
theorem Expr.Like.eq_shift {offset : Nat} {e e' : Expr} (h : Like (fun a a' => a' = a.shift offset) e e') :
    e' = e.shift offset := by
  induction h with
  | number hspan => rw [hspan, shift]
  | binary _ _ hspan ihl ihr => rw [ihl, ihr, hspan, shift]

/-- Results that are alike with all places moved are the moved results, or faults that are. -/
theorem Alike.eq_shift {α β : Type} {results : α → β → Prop} {offset : Nat} {x : Except Fault α}
    {y : Except Fault β} {move : α → β} (h : Alike (fun a a' => a' = a.shift offset) results x y)
    (hmove : ∀ a b, results a b → b = move a) : y = (x.map move).mapError (Fault.shift offset) := by
  cases h with
  | result hresult => exact congrArg Except.ok (hmove _ _ hresult)
  | fault hspan => rw [hspan]; rfl

namespace Reader

/-- Readers that read alike answer a call alike. -/
theorem answer_alike {like : Likeness} {r r' : Reader} (h : like.Readers r r') (call : Call) :
    Alike like.blamed (Expr.Like like.places) (answer call r) (answer call r') := by
  have hrules : Relates call.rule call.rule r r'
      (fun e e' s s' => Expr.Like like.places e e' ∧ like.ReadersBehind s s') like.Failed := by
    cases call with
    | expression => exact Likeness.expression_relates h
    | complete => exact Likeness.complete_relates h
  unfold answer
  rcases hrules.cases with ⟨e, _, e', _, hrule, hrule', he, -⟩ |
    ⟨⟨cause, span⟩, _, ⟨cause', span'⟩, _, hrule, hrule', hfailed⟩
  · rw [hrule, hrule']
    exact .result he
  · rw [hrule, hrule']
    obtain rfl : cause' = cause := hfailed.cause_eq
    exact .fault hfailed.span

/-- A reader that has taken nothing yet, at another offset. -/
def shift (offset : Nat) (r : Reader) : Reader :=
  { r with scanner := r.scanner.shift offset, current := r.current.shift offset }

theorem ofScanner_shift (offset : Nat) (s : Scanner) :
    ofScanner (s.shift offset) = ((ofScanner s).map (shift offset)).mapError (Fault.shift offset) := by
  unfold ofScanner
  rw [Scanner.scan_shift]
  rcases s.scan with ⟨item, behind⟩
  cases item with
  | ok token => rfl
  | error fault => rfl

/-! ## Readers in the middle of a text -/

/-- A reader has read expressions, one behind the other, and has become another one. -/
inductive ReadsOn : Reader → List Expr → Reader → Prop where
  | nil (r : Reader) : ReadsOn r [] r
  | cons {r s t : Reader} {e : Expr} {es : List Expr} (hrule : expression r = .ok e s)
      (rest : ReadsOn s es t) : ReadsOn r (e :: es) t

/-- A reader looks at a token of a text and is in no group of it. -/
structure Between (source : List Char) (r : Reader) : Prop where
  looks : ∃ left s, Scanner.Behind source left s ∧ s.finished = false ∧ r.At s
  groupDepth_eq : r.groupDepth = 0

section

variable {source left : List Char} {r s : Reader} {e : Expr} {es : List Expr}

theorem between_of_ofScanner {scanner : Scanner} (hbehind : Scanner.Behind source left scanner)
    (hopen : scanner.finished = false) (h : ofScanner scanner = .ok r) : Between source r := by
  unfold ofScanner at h
  split at h
  · next token behind hscan =>
    obtain rfl := Except.ok.inj h
    exact ⟨⟨left, scanner, hbehind, hopen, hscan⟩, rfl⟩
  · cases h

/-- Behind an expression a reader looks at the next token. -/
theorem Between.expression (h : Between source r) (hrule : Reader.expression r = .ok e s) :
    Between source s := by
  obtain ⟨⟨left, scanner, hbehind, hopen, hat⟩, hdepth⟩ := h
  have hspec := expression_ensures hat (ready_start _)
  rw [Ensures, hrule] at hspec
  obtain ⟨tokens, scanner', hreading, -, -⟩ := hspec
  obtain ⟨left', hbehind', -, -⟩ := hbehind.tiles hreading.reads
  exact ⟨⟨left', scanner', hbehind', hreading.reads.finished_eq.trans hopen, hreading.at_end⟩,
    hreading.groupDepth_eq.trans hdepth⟩

theorem Between.readsOn (h : Between source r) (hreads : ReadsOn r es s) : Between source s := by
  induction hreads with
  | nil => exact h
  | cons hrule _ ih => exact ih (h.expression hrule)

/-- A text can be cut in front of the token that a reader looks at. A reader that is made on the rest of
it reads alike. -/
theorem Between.exists_fresh (h : Between source r) :
    ∃ left right fresh, source = left ++ right ∧ byteLength left = r.current.span.start ∧
      ofScanner (.ofSource right) = .ok fresh ∧
      (Scanner.moved (byteLength left)).Readers fresh r := by
  obtain ⟨⟨before, scanner, hbehind, hopen, hat⟩, hdepth⟩ := h
  obtain ⟨hsource, hposition, -⟩ := hbehind.skip_blanks
  have hscan : (scanner.skip isBlank).scan = (.ok r.current, r.scanner) := by
    rw [Scanner.scan, Scanner.skip_skip]
    exact hat
  have hstart : r.current.span.start = (scanner.skip isBlank).position := by
    obtain ⟨-, hplaces, -⟩ := Scanner.token_places (scanner.skip isBlank)
    exact (hplaces r.current (congrArg Prod.fst hat)).1
  rw [← Scanner.shift_ofSource (s := scanner.skip isBlank) hopen, Scanner.scan_shift] at hscan
  obtain ⟨hitem, hmoved⟩ := Prod.mk.inj hscan
  rw [hposition] at hstart hitem hmoved
  rcases hfirst : (Scanner.ofSource (scanner.skip isBlank).rest).scan with ⟨item, next⟩
  rw [hfirst] at hitem hmoved
  cases item with
  | error fault => cases hitem
  | ok token =>
    have hcurrent : token.shift (byteLength (before ++ scanner.rest.takeWhile isBlank)) = r.current :=
      Except.ok.inj hitem
    refine ⟨_, _, ⟨next, token, 0, 0, 0⟩, hsource, hstart.symm, ?_, hmoved.symm, ?_, hdepth⟩
    · rw [ofScanner, hfirst]
    · rw [← hcurrent]
      exact ⟨rfl, rfl, rfl, rfl, fun _ => rfl⟩

end

end Reader

/-- Behind any scans a scanner stands behind some of the text, and its stream goes on. -/
theorem Scanner.exists_behind_scans (source : List Char) (skipped : Nat) :
    ∃ left, Behind source left ((fun s : Scanner => s.scan.2)^[skipped] (ofSource source)) ∧
      ((fun s : Scanner => s.scan.2)^[skipped] (ofSource source)).finished = false := by
  induction skipped with
  | zero => exact ⟨[], behind_ofSource source, rfl⟩
  | succ skipped ih =>
    obtain ⟨left, hbehind, hopen⟩ := ih
    obtain ⟨left', hbehind'⟩ := hbehind.scan
    rw [Function.iterate_succ_apply']
    exact ⟨left', hbehind', (scan_finished _).trans hopen⟩

/-- Behind any scans of a text, a reader can be made exactly if one can be made on the rest of the text,
and it is that reader, moved, or fails with its fault, moved. When it has read any number of expressions,
it answers the next call as a reader of the rest from the token on that it looks at, with all places
moved. -/
theorem answers_from_middle (source : List Char) (skipped : Nat) :
    let s : Scanner := (fun s : Scanner => s.scan.2)^[skipped] (.ofSource source)
    (∃ left right, source = left ++ right ∧ byteLength left = s.position ∧
      Reader.ofScanner s =
        ((Reader.ofScanner (.ofSource right)).map (Reader.shift s.position)).mapError
          (Fault.shift s.position)) ∧
    ∀ first es r, Reader.ofScanner s = .ok first → Reader.ReadsOn first es r →
      ∃ left right fresh, source = left ++ right ∧ byteLength left = r.current.span.start ∧
        Reader.ofScanner (.ofSource right) = .ok fresh ∧
        ∀ call, Reader.answer call r =
          ((Reader.answer call fresh).map (Expr.shift r.current.span.start)).mapError
            (Fault.shift r.current.span.start) := by
  intro s
  obtain ⟨left, hbehind, hopen⟩ := Scanner.exists_behind_scans source skipped
  refine ⟨⟨left, s.rest, hbehind.source_eq, hbehind.position_eq.symm, ?_⟩,
    fun first es r hfirst hreads => ?_⟩
  · rw [← Reader.ofScanner_shift, Scanner.shift_ofSource hopen]
  · have hbetween := (Reader.between_of_ofScanner hbehind hopen hfirst).readsOn hreads
    obtain ⟨left', right, fresh, hsource, hstart, hfresh, halike⟩ := hbetween.exists_fresh
    refine ⟨left', right, fresh, hsource, hstart, hfresh, fun call => ?_⟩
    rw [← hstart]
    exact (Reader.answer_alike halike call).eq_shift fun _ _ => Expr.Like.eq_shift

/-- A number that is too large is scanned over and a smaller one is read. Then a group is not closed, for
which the byte behind the last token is blamed. That place is remembered, and it is moved like any other. -/
theorem answers_from_middle_unclosed_group :
    ∃ first r seven left right fresh,
      Reader.ofScanner ((fun s : Scanner => s.scan.2)^[1]
        (.ofSource "99999999999999999999\u30007 (2 ".toList)) = .ok first ∧
      Reader.ReadsOn first [seven] r ∧ r.current.span.start = 25 ∧
      "99999999999999999999\u30007 (2 ".toList = left ++ right ∧ byteLength left = 25 ∧
      Reader.ofScanner (.ofSource right) = .ok fresh ∧
      Reader.answer .expression r = .error ⟨.unclosedGroup, .single 27⟩ ∧
      ((Reader.answer .expression fresh).map (Expr.shift 25)).mapError (Fault.shift 25) =
        .error ⟨.unclosedGroup, .single 27⟩ := by
  let number : Token := .integer ⟨7, by decide, by decide⟩ "7".toList ⟨23, 24⟩
  let first : Reader := ⟨⟨24, " (2 ".toList, false⟩, number, 0, 0, 0⟩
  let r : Reader := ⟨⟨26, "2 ".toList, false⟩, .mark .leftParen '(' 25, 24, 1, 0⟩
  let seven : Expr := .number ⟨7, by decide, by decide⟩ ⟨23, 24⟩
  have hfirst : Reader.ofScanner ((fun s : Scanner => s.scan.2)^[1]
      (.ofSource "99999999999999999999\u30007 (2 ".toList)) = .ok first := by rfl
  have hrule : Reader.expression first = .ok seven r := by decide +kernel
  have hreads : Reader.ReadsOn first [seven] r := .cons hrule (.nil r)
  have hanswer : Reader.answer .expression r = .error ⟨.unclosedGroup, .single 27⟩ := by
    decide +kernel
  obtain ⟨-, hmiddle⟩ := answers_from_middle "99999999999999999999\u30007 (2 ".toList 1
  obtain ⟨left, right, fresh, hsource, hstart, hfresh, hcalls⟩ := hmiddle first [seven] r hfirst hreads
  exact ⟨first, r, seven, left, right, fresh, hfirst, hreads, rfl, hsource, hstart, hfresh, hanswer,
    (hcalls .expression).symm.trans hanswer⟩

end Calculator
