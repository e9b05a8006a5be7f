import Calculator.Proofs.Parse.Exactness

/-!
# The longest sentence

Reading an expression without asking for the end of the input takes the longest sentence within the
limits that the text starts with. What follows it is looked at and has to be a token, but no operator.

That no longer sentence is passed over needs no comparison of readings. Behind a whole expression,
outside of all groups, the grammar admits only an operator, and the reader stops at none. So a longer
sentence would have to go on with a token that is not admitted (`OpensWith.longest`).
-/

namespace Calculator

open Grammar

/-! ## Items and readings -/

namespace Scanner

/-- The items of a scanner start with the one that is scanned next. -/
theorem exists_items_eq {s : Scanner} (hs : s.finished = false) :
    ∃ behind, s.items.1 = s.scan.1 :: behind := by
  cases hlast : s.scan.1.isLast with
  | true => exact ⟨[], items_of_isLast hs hlast⟩
  | false =>
    obtain ⟨token, htoken, hmore⟩ : ∃ token, s.scan.1 = .ok token ∧ token.kind ≠ .endOfInput := by
      cases hitem : s.scan.1 with
      | error fault => simp [hitem, Item.isLast] at hlast
      | ok token => exact ⟨token, rfl, by simpa [hitem, Item.isLast] using hlast⟩
    refine ⟨s.scan.2.items.1, ?_⟩
    rw [items_of_more hs (Prod.ext htoken rfl) hmore, htoken]

/-- Tokens with another item behind them are read, and that item is scanned next. -/
theorem exists_reads_of_items_eq {s : Scanner} (hs : s.finished = false) {tokens : List Token}
    {next : Item} {behind : List Item} (h : s.items.1 = tokens.map Except.ok ++ next :: behind) :
    ∃ t, s.Reads tokens t ∧ t.scan.1 = next := by
  obtain ⟨others, hothers⟩ := exists_items_eq hs
  induction tokens generalizing s others with
  | nil => exact ⟨s, .nil s, (List.cons.inj (hothers.symm.trans h)).1⟩
  | cons token tokens ih =>
    obtain ⟨hscan, -⟩ := List.cons.inj (hothers.symm.trans h)
    have hmore : token.kind ≠ .endOfInput := by
      intro hend
      -- the stream would be over
      have hlast : s.scan.1.isLast = true := by
        rw [hscan]
        simp [Item.isLast, hend]
      rw [items_of_isLast hs hlast] at h
      simp at h
    have hitems := items_of_more hs (Prod.ext hscan rfl) hmore
    have hopen : s.scan.2.finished = false := (scan_finished s).trans hs
    obtain ⟨behind', hbehind⟩ := exists_items_eq hopen
    obtain ⟨t, hreads, hnext⟩ := ih hopen (List.cons.inj (hitems.symm.trans h)).2 behind' hbehind
    exact ⟨t, .cons (Prod.ext hscan rfl) hmore hreads, hnext⟩

end Scanner

/-- A derivation goes on behind another one with an operator. -/
theorem Grammar.Derives.exists_operator {nonterminal nonterminal' : Nonterminal}
    {tokens rest : List Token} {token : Token} {e e' : Expr} (h : Derives nonterminal tokens e)
    (h' : Derives nonterminal' (tokens ++ token :: rest) e') :
    ∃ operator, token.kind = .operator operator := by
  by_contra hnone
  obtain ⟨last, -, hends, hrun⟩ := h.run Standing.expectsOperand_start
  obtain ⟨final, -, -, hall⟩ := h'.run Standing.expectsOperand_start
  obtain ⟨t, hfirst, hrest⟩ := hall.split
  obtain rfl := hfirst.unique hrun
  cases hrest with
  | cons hmore hadmits _ =>
    exact Standing.not_admits_of_endsOperand hends (not_exists.mp hnone) (fun _ => rfl)
      (fun hend => absurd hend hmore) hadmits

/-! ## Sentences that a text starts with -/

/-- A text starts with a sentence within the limits, and its stream goes on with other items. -/
structure OpensWith (source : List Char) (sentence : List Token) (behind : List Item) (e : Expr) :
    Prop where
  items_eq : (Scanner.ofSource source).items.1 = sentence.map Except.ok ++ behind
  derives : Derives .expression sentence e
  nests : NestsWithin depthLimit 0 sentence
  height_le : e.height ≤ depthLimit

/-- The longest sentence within the limits that a text starts with. -/
def OpensLongest (source : List Char) (sentence : List Token) (behind : List Item) (e : Expr) :
    Prop :=
  OpensWith source sentence behind e ∧
    ∀ sentence' behind' e', OpensWith source sentence' behind' e' →
      sentence'.length ≤ sentence.length

/-- A sentence is the longest if something other than an operator follows it. -/
theorem OpensWith.longest {source : List Char} {sentence : List Token} {next : Token}
    {behind : List Item} {e : Expr} (h : OpensWith source sentence (.ok next :: behind) e)
    (hstop : ∀ operator, next.kind ≠ .operator operator) :
    OpensLongest source sentence (.ok next :: behind) e := by
  refine ⟨h, fun sentence' behind' e' h' => ?_⟩
  by_contra hlonger
  have hitems := h.items_eq.symm.trans h'.items_eq
  rcases List.append_eq_append_iff.mp hitems with ⟨more, hmore, hbehind⟩ | ⟨more, hmore, -⟩
  · obtain ⟨first, rest, rfl, hfirst, hrest⟩ := List.map_eq_append_iff.mp hmore
    obtain rfl : first = sentence :=
      (List.map_inj_right fun _ _ => Except.ok.inj).mp hfirst
    cases rest with
    | nil => simp at hlonger
    | cons token rest =>
      -- the item behind the sentence is the token with which the longer one goes on
      obtain rfl : next = token := by
        rw [← hrest] at hbehind
        exact Except.ok.inj (List.cons.inj hbehind).1
      obtain ⟨operator, hoperator⟩ := h.derives.exists_operator h'.derives
      exact hstop operator hoperator
  · have hlength := congrArg List.length hmore
    simp only [List.length_map, List.length_append] at hlength
    omega

/-! ## The reader -/

/-- A fresh reader of a text reads an expression. -/
def ReadsFirst (source : List Char) (first : Reader) (e : Expr) (r : Reader) : Prop :=
  Reader.ofScanner (.ofSource source) = .ok first ∧ Reader.expression first = .ok e r

theorem Reader.at_of_ofScanner {s : Scanner} {first : Reader} (h : ofScanner s = .ok first) :
    first.At s ∧ first.groupDepth = 0 := by
  unfold ofScanner at h
  split at h
  · next token behind hscan =>
    obtain rfl := Except.ok.inj h
    exact ⟨hscan, rfl⟩
  · cases h

/-- What is read is the longest sentence, and one token more. -/
theorem ReadsFirst.exists_longest {source : List Char} {first r : Reader} {e : Expr}
    (h : ReadsFirst source first e r) :
    ∃ sentence behind s', OpensLongest source sentence (.ok r.current :: behind) e ∧
      (∀ operator, r.current.kind ≠ .operator operator) ∧
      (Scanner.ofSource source).Reads sentence s' ∧ s'.scan = (.ok r.current, r.scanner) := by
  obtain ⟨hfirst, hexpression⟩ := h
  obtain ⟨hat, hdepth⟩ := Reader.at_of_ofScanner hfirst
  have hensures := Reader.expression_ensures hat (Reader.ready_start _)
  unfold Reader.Ensures at hensures
  rw [hexpression] at hensures
  obtain ⟨sentence, s', hreading, -, hsettled⟩ := hensures
  have hopen : s'.finished = false :=
    hreading.reads.finished_eq.trans (Scanner.finished_ofSource source)
  obtain ⟨behind, hbehind⟩ := Scanner.exists_items_eq hopen
  have hnext : s'.scan.1 = .ok r.current := congrArg Prod.fst hreading.at_end
  have hopens : OpensWith source sentence (.ok r.current :: behind) e := {
    items_eq := by
      rw [hreading.reads.items_eq (Scanner.finished_ofSource source), hbehind, hnext]
    derives := hreading.derives
    nests := hreading.nests.of_limit_le (Nat.sub_le _ _)
    height_le := hreading.height_le }
  exact ⟨sentence, behind, s', hopens.longest hsettled.ne_operator, hsettled.ne_operator,
    hreading.reads, hreading.at_end⟩

/-- A sentence in front of a token that is no operator is read. -/
theorem OpensWith.exists_readsFirst {source : List Char} {sentence : List Token} {next : Token}
    {behind : List Item} {e : Expr} (h : OpensWith source sentence (.ok next :: behind) e)
    (hstop : ∀ operator, next.kind ≠ .operator operator) :
    ∃ first r, ReadsFirst source first e r := by
  obtain ⟨s', hreads, hnext⟩ :=
    Scanner.exists_reads_of_items_eq (Scanner.finished_ofSource source) h.items_eq
  obtain ⟨token, rest, rfl, -⟩ := Reader.startsOperand_of_derives h.derives
  obtain ⟨behind', hscan⟩ := hreads.scan_eq
  have hfirst : Reader.ofScanner (.ofSource source) = .ok ⟨behind', token, 0, 0, 0⟩ := by
    unfold Reader.ofScanner
    rw [hscan]
  have hnone : ∀ level, next.kind.operatorAt? level = none := by
    intro level
    rw [Option.eq_none_iff_forall_ne_some]
    intro operator hoperator
    exact hstop operator (Reader.operatorAt?_eq_some_iff.mp hoperator).1
  obtain ⟨r, hexpression, -⟩ := Reader.expression_of_derives h.derives hreads
    (Reader.at_of_ofScanner hfirst).1 rfl hnext hnone h.nests h.height_le
  exact ⟨_, r, hfirst, hexpression⟩

/-- An expression is read from the start of a text exactly if a token that is no operator follows the
longest sentence within the limits. The expression is that of the sentence, the token behind it is the
only one that is looked at, and a complete expression is read exactly if that is the end. -/
theorem expression_longest (source : List Char) :
    (∀ e, (∃ first r, ReadsFirst source first e r) ↔
      ∃ sentence next behind, OpensLongest source sentence (.ok next :: behind) e ∧
        ∀ operator, next.kind ≠ .operator operator) ∧
    ∀ first e r, ReadsFirst source first e r →
      (∃ sentence behind s', OpensLongest source sentence (.ok r.current :: behind) e ∧
        (Scanner.ofSource source).Reads sentence s' ∧ s'.scan = (.ok r.current, r.scanner)) ∧
      ((∃ r', Reader.complete first = .ok e r') ↔ r.current.kind = .endOfInput) := by
  refine ⟨fun e => ⟨?_, ?_⟩, fun first e r h => ⟨?_, ?_⟩⟩
  · rintro ⟨first, r, h⟩
    obtain ⟨sentence, behind, -, hlongest, hstop, -⟩ := h.exists_longest
    exact ⟨sentence, r.current, behind, hlongest, hstop⟩
  · rintro ⟨sentence, next, behind, hlongest, hstop⟩
    exact hlongest.1.exists_readsFirst hstop
  · obtain ⟨sentence, behind, s', hlongest, -, hreads, hscan⟩ := h.exists_longest
    exact ⟨sentence, behind, s', hlongest, hreads, hscan⟩
  · rw [Reader.complete_eq, h.2]
    by_cases hend : r.current.kind = .endOfInput
    · simp [hend]
    · simp [hend]

end Calculator
