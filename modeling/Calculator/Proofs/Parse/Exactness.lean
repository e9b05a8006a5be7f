import Calculator.Proofs.Grammar.Unambiguity
import Calculator.Proofs.Reader.Completeness
import Calculator.Proofs.Token.Pieces

/-!
# Which texts are parsed, and as what

A text is parsed exactly if its tokens are a sentence within the limits on groups and on the height
of the tree, and then as the one tree of that sentence. Soundness and completeness of the rules meet
in `Expr.parse_eq_ok_iff`, which still has the spans. Here they are erased.
-/

namespace Calculator

open Grammar

instance decidableEqOutcome {α : Type} [DecidableEq α] : DecidableEq (Except Fault α)
  | .ok a, .ok b => decidable_of_iff (a = b) ⟨congrArg _, Except.ok.inj⟩
  | .error a, .error b => decidable_of_iff (a = b) ⟨congrArg _, Except.error.inj⟩
  | .ok _, .error _ => .isFalse nofun
  | .error _, .ok _ => .isFalse nofun

theorem Scanner.finished_ofSource (source : List Char) : (ofSource source).finished = false := rfl

theorem Item.isLast_ok {token : Token} :
    Item.isLast (.ok token) = true ↔ token.kind = .endOfInput := by
  simp [Item.isLast]

/-- The stream of a text ends with the end of the input exactly if its tokens are read up to it. -/
theorem Scanner.streams_ok_iff {source : List Char} {tokens : List Token} {last : Token} :
    (ofSource source).Streams tokens (.ok last) ↔
      ∃ s', (ofSource source).Reads tokens s' ∧ s'.scan.1 = .ok last ∧
        last.kind = .endOfInput := by
  rw [streams_iff (finished_ofSource source)]
  constructor
  · rintro ⟨s', hreads, hscan, hlast⟩
    exact ⟨s', hreads, hscan, Item.isLast_ok.mp hlast⟩
  · rintro ⟨s', hreads, hscan, hend⟩
    exact ⟨s', hreads, hscan, Item.isLast_ok.mpr hend⟩

/-- A text is parsed as what its tokens derive, if that is within the limits. -/
theorem Expr.parse_eq_ok_iff {source : List Char} {e : Expr} :
    Expr.parse source = .ok e ↔
      ∃ tokens last, (Scanner.ofSource source).Streams tokens (.ok last) ∧
        Derives .expression tokens e ∧ NestsWithin depthLimit 0 tokens ∧
        e.height ≤ depthLimit := by
  constructor
  · intro h
    obtain ⟨tokens, s', last, hreads, hlast, hend, hderives, hlimits⟩ := Expr.reads_of_parse h
    exact ⟨tokens, last, Scanner.streams_ok_iff.mpr ⟨s', hreads, hlast, hend⟩, hderives, hlimits⟩
  · rintro ⟨tokens, last, hstreams, hderives, hnests, hheight⟩
    obtain ⟨s', hreads, hlast, hend⟩ := Scanner.streams_ok_iff.mp hstreams
    exact Expr.parse_of_reads hreads hlast hend hderives hnests hheight

/-- The same without the end of the stream. -/
theorem Expr.parse_eq_ok_iff_lexes {source : List Char} {e : Expr} :
    Expr.parse source = .ok e ↔
      ∃ tokens, Scanner.Lexes source tokens ∧ Derives .expression tokens e ∧
        NestsWithin depthLimit 0 tokens ∧ e.height ≤ depthLimit := by
  rw [Expr.parse_eq_ok_iff]
  constructor
  · rintro ⟨tokens, last, hstreams, hrest⟩
    exact ⟨tokens, Scanner.lexes_iff.mpr ⟨last, hstreams⟩, hrest⟩
  · rintro ⟨tokens, hlexes, hrest⟩
    obtain ⟨last, hstreams⟩ := Scanner.lexes_iff.mp hlexes
    exact ⟨tokens, last, hstreams, hrest⟩

/-- A sentence is refused for nothing but its depth. -/
theorem Expr.tooDeep_of_derives {source : List Char} {tokens : List Token} {last : Token} {e : Expr}
    {fault : Fault} (hstreams : (Scanner.ofSource source).Streams tokens (.ok last))
    (he : Derives .expression tokens e) (h : Expr.parse source = .error fault) :
    fault.cause = .tooDeep depthLimit := by
  obtain ⟨before, t, s, hrun, hreads, hrefuses⟩ := Expr.failsFrom_of_parse h
  obtain ⟨s', hall, hlast, hend⟩ := Scanner.streams_ok_iff.mp hstreams
  obtain ⟨rest, rfl, hrest⟩ := hreads.exists_rest hall (by rw [hlast, Item.isLast_ok, hend])
  obtain ⟨final, -, hends, hrunall⟩ := he.run Standing.expectsOperand_start
  obtain ⟨t', hbefore, hafter⟩ := hrunall.split
  obtain rfl := hrun.unique hbefore
  have hadmitted : ∃ token, s.scan.1 = .ok token ∧ t.Admits token := by
    cases rest with
    | nil =>
      cases hrest with
      | nil =>
      cases hafter with
      | nil =>
      refine ⟨last, hlast, ?_⟩
      simp [Standing.Admits, hend, Standing.expectsOperand_some, hends, Standing.start]
    | cons token rest =>
      obtain ⟨behind, hscan⟩ := hrest.scan_eq
      cases hafter with
      | cons _ hadmits _ => exact ⟨token, congrArg Prod.fst hscan, hadmits⟩
  obtain ⟨token, hscan, hadmits⟩ := hadmitted
  cases hrefuses with
  | lexical hlexical => cases hscan.symm.trans hlexical
  | grammar htoken hrefused =>
    obtain rfl := Except.ok.inj (hscan.symm.trans htoken)
    exact absurd hadmits hrefused
  | tooDeep span => rfl

/-- A text reads as a shape, or it is refused as too deep, and that exactly beyond the limits. -/
def ReadsUnlessTooDeep (source : List Char) (shape : Shape) : Prop :=
  ∃ tokens last, (Scanner.ofSource source).Streams tokens (.ok last) ∧
    ((NestsWithin depthLimit 0 tokens ∧ shape.height ≤ depthLimit) →
      ∃ e, Expr.parse source = .ok e ∧ e.shape = shape) ∧
    (¬ (NestsWithin depthLimit 0 tokens ∧ shape.height ≤ depthLimit) →
      ∃ fault, Expr.parse source = .error fault ∧ fault.cause = .tooDeep depthLimit ∧
        fault.cause.message = "Expression nested too deeply")

/-- The text of a sentence reads as its shape within the limits. -/
theorem readsUnlessTooDeep_of_sentence {source : List Char} {tokens : List Token} {last : Token}
    {shape : Shape} (hstreams : (Scanner.ofSource source).Streams tokens (.ok last))
    (h : Sentence tokens shape) : ReadsUnlessTooDeep source shape := by
  obtain ⟨e, he, rfl⟩ := h
  refine ⟨tokens, last, hstreams, ?_, ?_⟩
  · rintro ⟨hnests, hheight⟩
    rw [Expr.height_shape] at hheight
    exact ⟨e, Expr.parse_eq_ok_iff.mpr ⟨tokens, last, hstreams, he, hnests, hheight⟩, rfl⟩
  · intro hbeyond
    cases hparse : Expr.parse source with
    | ok e' =>
      obtain ⟨tokens', last', hstreams', he', hnests, hheight⟩ := Expr.parse_eq_ok_iff.mp hparse
      obtain ⟨rfl, -⟩ := hstreams.unique hstreams'
      obtain rfl := he.unique he'
      rw [Expr.height_shape] at hbeyond
      exact absurd ⟨hnests, hheight⟩ hbeyond
    | error fault =>
      have hcause := Expr.tooDeep_of_derives hstreams he hparse
      exact ⟨fault, rfl, hcause, by rw [hcause]; rfl⟩

/-- Parsing is exact: it succeeds on the sentences within the limits and nowhere else, with the tree
that the grammar gives them, and the grammar gives no sentence two trees. -/
theorem parse_exact (source : List Char) :
    (∀ shape, (∃ e, Expr.parse source = .ok e ∧ e.shape = shape) ↔
      ∃ tokens last, (Scanner.ofSource source).Streams tokens (.ok last) ∧
        Sentence tokens shape ∧ NestsWithin depthLimit 0 tokens ∧ shape.height ≤ depthLimit) ∧
    ∀ tokens shape shape', Sentence tokens shape → Sentence tokens shape' → shape = shape' := by
  refine ⟨fun shape => ⟨?_, ?_⟩, fun tokens shape shape' h h' => h.unique h'⟩
  · rintro ⟨e, hparse, rfl⟩
    obtain ⟨tokens, last, hstreams, hderives, hnests, hheight⟩ := Expr.parse_eq_ok_iff.mp hparse
    rw [Expr.height_shape]
    exact ⟨tokens, last, hstreams, ⟨e, hderives, rfl⟩, hnests, hheight⟩
  · rintro ⟨tokens, last, hstreams, ⟨e, hderives, rfl⟩, hnests, hheight⟩
    rw [Expr.height_shape] at hheight
    exact ⟨e, Expr.parse_eq_ok_iff.mpr ⟨tokens, last, hstreams, hderives, hnests, hheight⟩, rfl⟩

/-- Parentheses make no node, and both levels lean to the left. -/
example : (Expr.parse "8-2*3-1".toList).map Expr.shape =
    (Expr.parse "(8-(2*3))-1".toList).map Expr.shape := by
  decide +kernel

end Calculator
