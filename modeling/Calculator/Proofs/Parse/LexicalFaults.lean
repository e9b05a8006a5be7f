import Calculator.Proofs.Parse.Exactness
import Calculator.Proofs.Reader.History
import Calculator.Proofs.Reader.Simulation

/-!
# Parsing up to something that is no token

If the stream of a text ends with a fault, parsing the text fails as well: with that fault, or earlier
with one of grammar (`Expr.parse_forestalls`). A reader looks one token ahead and no further, so it never
blames anything behind the place where the fault lies, not even if it misses a token: there is always a
token or that fault to blame.

That is an invariant of all rules. It is shown by comparing them with themselves, in a `Simulation` that
keeps the reader in front of the fault (`inFrontOf`).
-/

namespace Calculator

open Reader

/-- A fault that is found instead of another one: it is the same, or one of grammar in front of it. -/
def Fault.Forestalls (found fault : Fault) : Prop :=
  found = fault ∨ found.cause.kind = .grammar ∧ found.span.stop ≤ fault.span.start

/-- A scanner reads tokens and then finds a fault. -/
def Scanner.LeadsTo (s : Scanner) (fault : Fault) : Prop :=
  ∃ tokens t, s.Reads tokens t ∧ t.scan.1 = .error fault

/-- The fault is found at once, or in front of it a token. -/
theorem Scanner.LeadsTo.cases {s : Scanner} {fault : Fault} (h : s.LeadsTo fault) :
    s.scan.1 = .error fault ∨
      ∃ token behind, s.scan = (.ok token, behind) ∧ token.kind ≠ .endOfInput ∧
        token.span.stop ≤ fault.span.start ∧ behind.LeadsTo fault := by
  obtain ⟨tokens, t, hreads, hfault⟩ := h
  cases hreads with
  | nil => exact Or.inl hfault
  | @cons _ behind _ token tokens hscan hmore rest =>
    obtain ⟨-, -, hstop⟩ := scan_places hscan
    have hrest := rest.position_le
    have hlast := position_le_of_scan_error hfault
    have hbefore : token.span.stop ≤ fault.span.start := by
      rw [hstop hmore]
      exact Nat.le_trans hrest hlast
    exact Or.inr ⟨token, behind, hscan, hmore, hbefore, tokens, t, rest, hfault⟩

namespace Reader

/-- A reader looks at a token in front of a fault that its scanner leads to. -/
structure InFrontOf (fault : Fault) (r : Reader) : Prop where
  leads : r.scanner.LeadsTo fault
  more : r.current.kind ≠ .endOfInput
  stop_le : r.current.span.stop ≤ fault.span.start

variable {fault : Fault} {r : Reader}

/-- The next token is taken, and the reader is still in front of the fault, or it has come to it. -/
theorem InFrontOf.advance (h : InFrontOf fault r) :
    (∃ s, Reader.advance r = .ok r.current s ∧ InFrontOf fault s ∧ s.height = r.height) ∨
      ∃ s, Reader.advance r = .error fault s := by
  rcases h.leads.cases with hfault | ⟨token, behind, hscan, hmore, hstop, hleads⟩
  · have hscan : r.scanner.scan = (.error fault, r.scanner.scan.2) := Prod.ext hfault rfl
    refine Or.inr ⟨{ r with scanner := r.scanner.scan.2 }, ?_⟩
    unfold Reader.advance
    rw [hscan]
  · exact Or.inl ⟨_, advance_eq hscan, ⟨hleads, hmore, hstop⟩, rfl⟩

/-- In front of a fault, a missing token is reported at the token found instead. -/
theorem InFrontOf.missingSpan_eq (h : InFrontOf fault r) : r.missingSpan = r.current.span :=
  if_neg h.more

/-- The rules keep a reader in front of a fault, and what they fail with forestalls it. -/
def inFrontOf (fault : Fault) : Simulation id where
  before _ r r' := r' = r ∧ InFrontOf fault r
  behind _ r r' := r' = r ∧ InFrontOf fault r
  tokens t t' := t' = t ∧ t.span.stop ≤ fault.span.start
  spans a a' := a' = a ∧ a.stop ≤ fault.span.start
  exprs e e' := e' = e
  failed _ found found' _ _ := found' = found ∧ found.Forestalls fault
  before_of_behind h := h
  kind_eq h := by rw [h.1]
  lexeme_eq h := by rw [h.1]
  current_span h := ⟨by rw [h.1], h.2.stop_le⟩
  current h _ := ⟨by rw [h.1], h.2.stop_le⟩
  missing h := ⟨by rw [h.1], h.2.missingSpan_eq ▸ h.2.stop_le⟩
  value_eq h := by rw [h.1]
  token_span h := ⟨by rw [h.1], h.2⟩
  cover h h' := ⟨by rw [h.1, h'.1], Nat.max_le.mpr ⟨h.2, h'.2⟩⟩
  numbers value h := by rw [h.1]
  groups h he h' := by rw [h.1, he, h'.1]
  joins _ hl hr _ := by rw [hl, hr]
  height_eq h := by rw [h]
  advances := by
    rintro k r _ ⟨rfl, h⟩ -
    rcases h.advance with ⟨s, hrule, hs, hheight⟩ | ⟨s, hrule⟩
    · exact relates_of_ok hrule hrule ⟨rfl, rfl, ⟨rfl, hs⟩, hheight, hheight⟩
    · exact relates_of_error hrule hrule ⟨rfl, Or.inl rfl⟩
  records := by
    rintro k r _ height ⟨rfl, h⟩
    exact ⟨rfl, h.leads, h.more, h.stop_le⟩
  deepens := by
    rintro k r _ ⟨rfl, h⟩
    exact ⟨rfl, h.leads, h.more, h.stop_le⟩
  surfaces := by
    rintro k r _ s _ - ⟨rfl, hs⟩
    exact ⟨rfl, hs.leads, hs.more, hs.stop_le⟩
  blames h hkind hspan := ⟨by rw [hspan.1], Or.inr ⟨hkind, hspan.2⟩⟩
  surrounds _ h := h

/-- An expression leaves the reader in front of the fault, or reading it fails. -/
theorem InFrontOf.expression (h : InFrontOf fault r) :
    (∃ e s, Reader.expression r = .ok e s ∧ InFrontOf fault s) ∨
      ∃ found s, Reader.expression r = .error found s ∧ found.Forestalls fault := by
  have hwithin := (inFrontOf fault).expressionAround_relates (depthLimit - r.groupDepth) r r ⟨rfl, h⟩
  rcases hwithin.cases with ⟨e, s, _, _, hrule, -, -, ⟨-, hs⟩, -⟩ |
    ⟨found, s, _, _, hrule, -, -, hforestalls⟩
  · exact Or.inl ⟨e, s, hrule, hs⟩
  · exact Or.inr ⟨found, s, hrule, hforestalls⟩

/-- In front of a fault no expression is complete. -/
theorem InFrontOf.complete (h : InFrontOf fault r) :
    ∃ found s, Reader.complete r = .error found s ∧ found.Forestalls fault := by
  rcases h.expression with ⟨e, s, hrule, hs⟩ | ⟨found, s, hrule, hforestalls⟩
  · refine ⟨⟨.trailingInput s.current.kind s.current.lexeme, s.current.span⟩, s, ?_,
      Or.inr ⟨rfl, hs.stop_le⟩⟩
    rw [complete_eq, hrule]
    exact if_neg hs.more
  · exact ⟨found, s, bind_of_error hrule, hforestalls⟩

end Reader

/-- A text whose stream ends with a fault is refused, for that fault or for one that forestalls it. -/
theorem Expr.parse_forestalls {source : List Char} {tokens : List Token} {fault : Fault}
    (h : (Scanner.ofSource source).Streams tokens (.error fault)) :
    ∃ found, Expr.parse source = .error found ∧ found.Forestalls fault := by
  obtain ⟨t, hreads, hfault, -⟩ := (Scanner.streams_iff rfl).mp h
  have hleads : (Scanner.ofSource source).LeadsTo fault := ⟨tokens, t, hreads, hfault⟩
  rcases Expr.parse_cases source with ⟨first, hscan, hparse⟩ | ⟨r, hat, -, hparse⟩
  · rcases hleads.cases with hfirst | ⟨token, behind, hnext, -⟩
    · obtain rfl : first = fault := Except.error.inj (hscan.symm.trans hfirst)
      exact ⟨first, hparse, Or.inl rfl⟩
    · rw [hnext] at hscan
      cases hscan
  · rcases hleads.cases with hfirst | ⟨token, behind, hnext, hmore, hstop, hbehind⟩
    · rw [hat] at hfirst
      cases hfirst
    · obtain ⟨rfl, rfl⟩ := hat.current_eq hnext
      obtain ⟨found, s, hrule, hforestalls⟩ := InFrontOf.complete ⟨hbehind, hmore, hstop⟩
      rw [hrule] at hparse
      exact ⟨found, hparse, hforestalls⟩

/-- The `*` has no operand in front of it, and is blamed before the character behind it is looked at. -/
example : Expr.parse "1+*$".toList = .error ⟨.missingOperand .add, ⟨1, 2⟩⟩ ∧
    Expr.parse "1+2$".toList = .error ⟨.unexpectedCharacter '$', ⟨3, 4⟩⟩ := by
  decide +kernel

end Calculator
