import Mathlib.Data.List.Forall2
import Calculator.Expr.Evaluation
import Calculator.Proofs.Expr.Shape
import Calculator.Proofs.Reader.Simulation

/-!
# Texts that read alike

Two scanners read alike if each scan of the one gives what that of the other gives, but for the places.
Nothing that is done with their items decides by a place. So whatever is known of the places of single
items is known of the streams, of the expressions that are parsed and of the faults that are found
(`Likeness.items`, `Likeness.parse`, `Likeness.evaluate`).

Two relations on places are kept apart. `places` holds of what is read: of the spans of tokens, and of
those of expressions, which cover tokens. `blamed` holds of the spans of faults, some of which are the
span of nothing that was read, but of a single byte behind it.
-/

namespace Calculator

/-! ## What is alike -/

section

variable (places blamed : Span → Span → Prop)

/-- Two results that are related, or two faults with one cause. -/
inductive Alike {α β : Type} (results : α → β → Prop) : Except Fault α → Except Fault β → Prop where
  | result {a : α} {b : β} (h : results a b) : Alike results (.ok a) (.ok b)
  | fault {cause : Cause} {span span' : Span} (h : blamed span span') :
      Alike results (.error ⟨cause, span⟩) (.error ⟨cause, span'⟩)

/-- Two tokens that differ only in their places. The end of the input can be blamed, but it is not
read. -/
structure Token.Like (t t' : Token) : Prop where
  kind_eq : t'.kind = t.kind
  lexeme_eq : t'.lexeme = t.lexeme
  value_eq : t'.value = t.value
  blamed : blamed t.span t'.span
  places : t.kind ≠ .endOfInput → places t.span t'.span

/-- Two expressions that differ only in their places. -/
inductive Expr.Like : Expr → Expr → Prop where
  | number {value : Word} {span span' : Span} (h : places span span') :
      Like (.number value span) (.number value span')
  | binary {left right left' right' : Expr} {operator : Operator} {span span' : Span}
      (hleft : Like left left') (hright : Like right right') (h : places span span') :
      Like (.binary left operator right span) (.binary left' operator right' span')

end

namespace Expr.Like

variable {places blamed : Span → Span → Prop} {e e' : Expr}

theorem span (h : Like places e e') : places e.span e'.span := by
  cases h <;> assumption

theorem withSpan (h : Like places e e') {span span' : Span} (hspan : places span span') :
    Like places (e.withSpan span) (e'.withSpan span') := by
  cases h with
  | number => exact .number hspan
  | binary hleft hright => exact .binary hleft hright hspan

theorem shape_eq (h : Like places e e') : e'.shape = e.shape := by
  induction h with
  | number => rfl
  | binary _ _ _ ihl ihr => rw [shape, shape, ihl, ihr]

theorem height_eq (h : Like places e e') : e'.height = e.height := by
  rw [← height_shape, h.shape_eq, height_shape]

/-- The value depends on no place, and a fault is blamed on the place of a node. -/
theorem eval (h : Like places e e') (hblamed : ∀ a a', places a a' → blamed a a') :
    Alike blamed Eq e.eval e'.eval := by
  induction h with
  | number => exact .result rfl
  | @binary left right left' right' operator span span' _ _ hspan ihl ihr =>
    rw [Expr.eval, Expr.eval]
    generalize left.eval = l, left'.eval = l', right.eval = r, right'.eval = r' at *
    cases ihl with
    | fault hfault => exact .fault hfault
    | @result l _ hl =>
      cases hl
      cases ihr with
      | fault hfault => exact .fault hfault
      | @result r _ hr =>
        cases hr
        show Alike blamed Eq ((operator.apply l r).mapError (⟨·, span⟩))
          ((operator.apply l r).mapError (⟨·, span'⟩))
        cases operator.apply l r with
        | ok value => exact .result rfl
        | error cause => exact .fault (hblamed _ _ hspan)

end Expr.Like

/-- What is known of the places of two scanners that read alike. -/
structure Likeness where
  scanners : Scanner → Scanner → Prop
  places : Span → Span → Prop
  blamed : Span → Span → Prop
  scan : ∀ {s s'}, scanners s s' → Alike blamed (Token.Like places blamed) s.scan.1 s'.scan.1
  scan_behind : ∀ {s s'}, scanners s s' → scanners s.scan.2 s'.scan.2
  cover : ∀ {a a' b b'}, places a a' → places b b' → places (a.cover b) (a'.cover b')
  blamed_of_places : ∀ {a a'}, places a a' → blamed a a'
  /-- Where a token is missing, the byte behind the last token is blamed. -/
  blamed_behind : ∀ {a a'}, places a a' → blamed (.single a.stop) (.single a'.stop)

namespace Likeness

open Reader

variable (like : Likeness)

/-- Two tokens that differ only in their places. -/
def Tokens (t t' : Token) : Prop := Token.Like like.places like.blamed t t'

/-- Two readers that read alike from here on. What they have taken before is not looked at. -/
structure Readers (r r' : Reader) : Prop where
  scanners : like.scanners r.scanner r'.scanner
  current : like.Tokens r.current r'.current
  groupDepth_eq : r'.groupDepth = r.groupDepth

/-- Two readers that have taken a token and read alike from here on. -/
structure ReadersBehind (r r' : Reader) : Prop extends like.Readers r r' where
  previousEnd : like.blamed (.single r.previousEnd) (.single r'.previousEnd)

/-- Two faults with one cause, found by readers that read alike. -/
structure Failed (fault fault' : Fault) (r r' : Reader) : Prop where
  cause_eq : fault'.cause = fault.cause
  span : like.blamed fault.span fault'.span
  readers : like.Readers r r'

variable {like}

/-- Taking a token in two readers that read alike. -/
theorem Readers.advance {r r' : Reader} (h : like.Readers r r') (hmore : r.current.kind ≠ .endOfInput) :
    Relates Reader.advance Reader.advance r r'
      (fun token token' s s' => token = r.current ∧ token' = r'.current ∧ like.ReadersBehind s s' ∧
        s.height = r.height ∧ s'.height = r'.height)
      like.Failed := by
  have hscan := like.scan h.scanners
  have hbehind := like.scan_behind h.scanners
  unfold Relates Reader.advance
  generalize r.scanner.scan = scanned, r'.scanner.scan = scanned' at *
  obtain ⟨item, behind⟩ := scanned
  obtain ⟨item', behind'⟩ := scanned'
  cases hscan with
  | result htoken =>
    exact ⟨rfl, rfl, ⟨⟨hbehind, htoken, h.groupDepth_eq⟩, like.blamed_behind (h.current.places hmore)⟩,
      rfl, rfl⟩
  | fault hspan => exact ⟨rfl, hspan, hbehind, h.current, h.groupDepth_eq⟩

theorem ReadersBehind.missing {r r' : Reader} (h : like.ReadersBehind r r') :
    like.blamed r.missingSpan r'.missingSpan := by
  unfold missingSpan
  rw [h.current.kind_eq]
  split
  · exact h.previousEnd
  · exact h.current.blamed

/-- Alike readers stay alike. -/
def simulation (like : Likeness) : Simulation id where
  before _ := like.Readers
  behind _ := like.ReadersBehind
  tokens t t' := t.kind ≠ .endOfInput ∧ like.Tokens t t'
  spans := like.blamed
  exprs := Expr.Like like.places
  failed _ := like.Failed
  before_of_behind h := h.toReaders
  kind_eq h := h.current.kind_eq
  lexeme_eq h := h.current.lexeme_eq
  current_span h := h.current.blamed
  current h hmore := ⟨hmore, h.current⟩
  missing h := h.missing
  value_eq h := h.2.value_eq
  token_span h := h.2.blamed
  cover h h' := like.blamed_of_places (like.cover (h.2.places h.1) (h'.2.places h'.1))
  numbers _ h := .number (h.2.places h.1)
  groups h he h' := he.withSpan (like.cover (h.2.places h.1) (h'.2.places h'.1))
  joins _ hl hr _ := .binary hl hr (like.cover hl.span hr.span)
  height_eq h := h.height_eq
  advances h hmore := h.advance hmore
  records _ h := ⟨⟨h.scanners, h.current, h.groupDepth_eq⟩, h.previousEnd⟩
  deepens h := ⟨⟨h.scanners, h.current, congrArg (· + 1) h.groupDepth_eq⟩, h.previousEnd⟩
  surfaces _ h := ⟨⟨h.scanners, h.current, congrArg (· - 1) h.groupDepth_eq⟩, h.previousEnd⟩
  blames h _ hspan := ⟨rfl, hspan, h⟩
  surrounds _ h := h

/-! ## What is read -/

theorem expression_relates {r r' : Reader} (h : like.Readers r r') :
    Relates expression expression r r'
      (fun e e' s s' => Expr.Like like.places e e' ∧ like.ReadersBehind s s') like.Failed := by
  unfold expression
  refine relates_get ?_
  rw [h.groupDepth_eq]
  have hwithin := (like.simulation).expressionAround_relates (depthLimit - r.groupDepth) r r' h
  rw [expressionAround_id] at hwithin
  exact hwithin.mono (fun _ _ _ _ hread => ⟨hread.1, hread.2.1⟩) fun _ _ _ _ hfailed => hfailed

theorem complete_relates {r r' : Reader} (h : like.Readers r r') :
    Relates complete complete r r'
      (fun e e' s s' => Expr.Like like.places e e' ∧ like.ReadersBehind s s') like.Failed := by
  refine Relates.bind (expression_relates h) ?_
  rintro e e' s s' ⟨he, hs⟩
  refine relates_get ?_
  dsimp only
  rw [hs.current.kind_eq, hs.current.lexeme_eq]
  split
  · exact relates_pure ⟨he, hs⟩
  · exact relates_blame ⟨rfl, hs.current.blamed, hs.toReaders⟩

/-- Two readers of scanners that read alike are alike, or there is none of either. -/
theorem ofScanner_alike {s s' : Scanner} (h : like.scanners s s') :
    Alike like.blamed like.Readers (ofScanner s) (ofScanner s') := by
  have hscan := like.scan h
  have hbehind := like.scan_behind h
  unfold ofScanner
  generalize s.scan = scanned, s'.scan = scanned' at *
  obtain ⟨item, behind⟩ := scanned
  obtain ⟨item', behind'⟩ := scanned'
  cases hscan with
  | result htoken => exact .result ⟨hbehind, htoken, rfl⟩
  | fault hspan => exact .fault hspan

/-! ## Whole texts -/

/-- The streams of scanners that read alike are alike, item by item. -/
theorem items {s s' : Scanner} (h : like.scanners s s') (hs : s.finished = false)
    (hs' : s'.finished = false) :
    List.Forall₂ (Alike like.blamed like.Tokens) s.items.1 s'.items.1 := by
  -- every token but the last takes characters of the first text away
  induction hlength : s.rest.length using Nat.strongRecOn generalizing s s' with
  | _ n ih =>
  have hscan := like.scan h
  have hbehind := like.scan_behind h
  have hshorter := Scanner.scan_length_lt (s := s)
  have hopen := (Scanner.scan_finished s).trans hs
  have hopen' := (Scanner.scan_finished s').trans hs'
  rcases hitem : s.scan with ⟨item, behind⟩
  rcases hitem' : s'.scan with ⟨item', behind'⟩
  rw [hitem] at hscan hbehind hshorter hopen
  rw [hitem'] at hscan hbehind hopen'
  have hlast : Item.isLast item = true → Item.isLast item' = true →
      List.Forall₂ (Alike like.blamed like.Tokens) s.items.1 s'.items.1 := by
    intro hlast hlast'
    rw [Scanner.items_of_isLast hs (by rw [hitem]; exact hlast),
      Scanner.items_of_isLast hs' (by rw [hitem']; exact hlast'), hitem, hitem']
    exact .cons hscan .nil
  cases hscan with
  | fault hspan => exact hlast rfl rfl
  | @result token token' htoken =>
    by_cases hmore : token.kind = .endOfInput
    · exact hlast (by simp [Item.isLast, hmore]) (by simp [Item.isLast, htoken.kind_eq, hmore])
    · rw [Scanner.items_of_more hs hitem hmore,
        Scanner.items_of_more hs' hitem' (htoken.kind_eq ▸ hmore)]
      have hlt := hshorter (by simp [Item.isLast, hmore])
      exact .cons (.result htoken) (ih _ (hlength ▸ hlt) hbehind hopen hopen' rfl)

/-- Texts that read alike are parsed alike. -/
theorem parse {source source' : List Char}
    (h : like.scanners (.ofSource source) (.ofSource source')) :
    Alike like.blamed (Expr.Like like.places) (Expr.parse source) (Expr.parse source') := by
  have hreaders := ofScanner_alike h
  unfold Expr.parse
  generalize ofScanner (.ofSource source) = reader, ofScanner (.ofSource source') = reader' at *
  cases hreaders with
  | fault hspan => exact .fault hspan
  | @result r r' hr =>
    simp only [bind, Except.bind]
    rcases (complete_relates hr).cases with ⟨e, _, e', _, hrule, hrule', he, -⟩ |
      ⟨⟨cause, span⟩, _, ⟨cause', span'⟩, _, hrule, hrule', hfailed⟩
    · rw [hrule, hrule']
      exact .result he
    · rw [hrule, hrule']
      obtain rfl : cause' = cause := hfailed.cause_eq
      exact .fault hfailed.span

/-- Texts that read alike have one value, or fail for one cause. -/
theorem evaluate {source source' : List Char}
    (h : like.scanners (.ofSource source) (.ofSource source')) :
    Alike like.blamed Eq (evaluate source) (evaluate source') := by
  have hparse := like.parse h
  unfold Calculator.evaluate
  generalize Expr.parse source = result, Expr.parse source' = result' at *
  cases hparse with
  | fault hspan => exact .fault hspan
  | result he => exact he.eval fun _ _ => like.blamed_of_places

end Likeness

end Calculator
