import Calculator.Proofs.Grammar.Standing
import Calculator.Proofs.Token.Stream
import Calculator.Expr.Reader

/-!
# Single steps of a reader

A reader holds one token that was scanned and not yet taken. `Reader.At` names the scanner in front
of that token, so everything a rule takes can be told as a reading from one scanner to another.

`Ensures` says what holds of the result of a rule and what holds of its fault. It goes through a
sequence of rules with `Ensures.bind`. A rule that fails does so because of the first item that the
grammar does not admit, or because of a limit: `FailsFrom`.
-/

namespace Calculator

open Grammar

/-! ## Faults of the grammar -/

namespace Grammar

/-- The fault where an expression has to start and a token does not start one. -/
def noOperand (token : Token) : Fault :=
  if token.kind = .endOfInput then ⟨.unexpectedEnd, token.span⟩
  else ⟨.noExpression token.kind token.lexeme, token.span⟩

/-- The fault where an expression is complete and a token does not go on with it. -/
def noContinuation (last : Token) (inGroup : Prop) [Decidable inGroup] (token : Token) : Fault :=
  if inGroup then
    ⟨.unclosedGroup, if token.kind = .endOfInput then .single last.span.stop else token.span⟩
  else ⟨.trailingInput token.kind token.lexeme, token.span⟩

/-- The fault of a token that is not admitted. It depends on the token before it and on whether a
group is open. -/
def complaint (last : Option Token) (inGroup : Prop) [Decidable inGroup] (token : Token) : Fault :=
  match last with
  | none => noOperand token
  | some last =>
    match last.kind with
    | .operator operator => ⟨.missingOperand operator, last.span⟩
    | .leftParen =>
      if token.kind = .rightParen then ⟨.emptyGroup, last.span.cover token.span⟩
      else noOperand token
    | _ => noContinuation last inGroup token

/-- Why no more than what led to a standing can be read. -/
inductive Standing.Refuses (t : Standing) (s : Scanner) : Fault → Prop where
  | lexical {fault : Fault} (hscan : s.scan.1 = .error fault) : t.Refuses s fault
  | grammar {token : Token} (hscan : s.scan.1 = .ok token) (hrefused : ¬ t.Admits token) :
      t.Refuses s (complaint t.last (0 < t.depth) token)
  | tooDeep (span : Span) : t.Refuses s ⟨.tooDeep depthLimit, span⟩

/-- Tokens are admitted and read up to a place where a fault is found. -/
def Standing.FailsFrom (t : Standing) (s : Scanner) (fault : Fault) : Prop :=
  ∃ tokens t' s', t.Run tokens t' ∧ s.Reads tokens s' ∧ t'.Refuses s' fault

namespace Standing

theorem FailsFrom.after {t t' : Standing} {s s' : Scanner} {tokens : List Token} {fault : Fault}
    (h : t'.FailsFrom s' fault) (hrun : t.Run tokens t') (hreads : s.Reads tokens s') :
    t.FailsFrom s fault := by
  obtain ⟨others, t'', s'', hrun', hreads', hrefuses⟩ := h
  exact ⟨tokens ++ others, t'', s'', hrun.append hrun', hreads.append hreads', hrefuses⟩

theorem Refuses.failsFrom {t : Standing} {s : Scanner} {fault : Fault} (h : t.Refuses s fault) :
    t.FailsFrom s fault :=
  ⟨[], t, s, .nil t, .nil s, h⟩

/-- Where an operand has to come, only a number and an opening parenthesis are admitted. -/
theorem not_admits_of_expectsOperand {t : Standing} {token : Token} (ht : t.ExpectsOperand)
    (hkind : token.kind.startsOperand = false) : ¬ t.Admits token := by
  unfold Admits
  split <;> simp_all [Token.Kind.startsOperand]

/-- Behind an operand, only operators, closing parentheses and the end are admitted. -/
theorem not_admits_of_endsOperand {last token : Token} {depth : Nat}
    (hlast : endsOperand last.kind = true) (hoperator : ∀ operator, token.kind ≠ .operator operator)
    (hclosing : token.kind = .rightParen → depth = 0)
    (hend : token.kind = .endOfInput → 0 < depth) :
    ¬ (⟨some last, depth⟩ : Standing).Admits token := by
  unfold Admits
  split
  · simp [expectsOperand_some, hlast]
  · simp [expectsOperand_some, hlast]
  · next operator h => exact absurd h (hoperator operator)
  · next h => simp [hclosing h]
  · next h => exact fun hadmits => absurd hadmits.2 (Nat.ne_of_gt (hend h))

end Standing

theorem complaint_of_endsOperand {last token : Token} (hlast : endsOperand last.kind = true)
    (inGroup : Prop) [Decidable inGroup] :
    complaint (some last) inGroup token = noContinuation last inGroup token := by
  unfold complaint
  split
  · contradiction
  · next h =>
    obtain rfl := Option.some.inj h
    split <;> simp_all [endsOperand]

end Grammar

namespace Reader

/-! ## What a rule ensures -/

/-- What holds of the result of a rule with the reader behind it, or of its fault. -/
def Ensures {α : Type} (rule : Rule α) (r : Reader) (onResult : α → Reader → Prop)
    (onFault : Fault → Prop) : Prop :=
  match rule r with
  | .ok a r' => onResult a r'
  | .error fault _ => onFault fault

section

variable {α β : Type} {r : Reader} {P : α → Reader → Prop} {Q : β → Reader → Prop}
  {E : Fault → Prop}

theorem Ensures.bind {rule : Rule α} {next : α → Rule β} (h : Ensures rule r P E)
    (hnext : ∀ a r', P a r' → Ensures (next a) r' Q E) : Ensures (rule >>= next) r Q E := by
  unfold Ensures at h
  show match EStateM.bind rule next r with
    | .ok b r' => Q b r'
    | .error fault _ => E fault
  unfold EStateM.bind
  split at h
  · next a r' hrule =>
    rw [hrule]
    exact hnext a r' h
  · next fault r' hrule =>
    rw [hrule]
    exact h

theorem Ensures.mono {rule : Rule α} {P' : α → Reader → Prop} (h : Ensures rule r P E)
    (hresult : ∀ a r', P a r' → P' a r') : Ensures rule r P' E := by
  unfold Ensures at h ⊢
  split at h
  · exact hresult _ _ h
  · exact h

/-- A fault that is found behind some tokens is found from before them. -/
theorem Ensures.after {rule : Rule α} {t t' : Standing} {s s' : Scanner} {tokens : List Token}
    (h : Ensures rule r P (t'.FailsFrom s')) (hrun : t.Run tokens t')
    (hreads : s.Reads tokens s') : Ensures rule r P (t.FailsFrom s) := by
  unfold Ensures at h ⊢
  split at h
  · exact h
  · exact h.after hrun hreads

theorem ensures_get {next : Reader → Rule β} (h : Ensures (next r) r Q E) :
    Ensures (get >>= next) r Q E := h

theorem ensures_modify {f : Reader → Reader} {next : PUnit → Rule β}
    (h : Ensures (next ⟨⟩) (f r) Q E) : Ensures (modify f >>= next) r Q E := h

theorem ensures_pure {a : α} (h : P a r) : Ensures (pure a) r P E := h

theorem ensures_blame {cause : Cause} {span : Span} (h : E ⟨cause, span⟩) :
    Ensures (blame cause span) r P E := h

theorem ensures_blame_bind {cause : Cause} {span : Span} {next : α → Rule β}
    (h : E ⟨cause, span⟩) : Ensures (blame cause span >>= next) r Q E := h

theorem ensures_record {height : Nat} {e : Expr} {P : Expr → Reader → Prop}
    (h : P e { r with height }) : Ensures (record height e) r P E := h

end

/-! ## Single tokens -/

/-- The reader holds the next token of a scanner. -/
def At (r : Reader) (s : Scanner) : Prop := s.scan = (.ok r.current, r.scanner)

theorem At.value_isSome {r : Reader} {s : Scanner} (h : r.At s) (hkind : r.current.kind = .integer) :
    r.current.value.isSome :=
  Scanner.scan_value_isSome h hkind

/-- Taking a token: the reader then stands where its scanner stood, or what follows is no token. -/
theorem advance_ensures (r : Reader) :
    Ensures advance r
      (fun token r' => token = r.current ∧ r'.At r.scanner ∧ r'.previousEnd = r.current.span.stop ∧
        r'.height = r.height ∧ r'.groupDepth = r.groupDepth)
      (fun fault => r.scanner.scan.1 = .error fault) := by
  rcases hscan : r.scanner.scan with ⟨item, behind⟩
  cases item with
  | ok next => simp [Ensures, advance, hscan, At]
  | error fault => simp [Ensures, advance, hscan]

/-- Taking a token that is admitted. -/
theorem advance_ensures_of_admits {r : Reader} {s : Scanner} {t : Standing} (hat : r.At s)
    (hmore : r.current.kind ≠ .endOfInput) (hadmits : t.Admits r.current) :
    Ensures advance r
      (fun token r' => token = r.current ∧ r'.At r.scanner ∧ r'.previousEnd = r.current.span.stop ∧
        r'.height = r.height ∧ r'.groupDepth = r.groupDepth)
      (t.FailsFrom s) := by
  have h := advance_ensures r
  unfold Ensures at h ⊢
  split
  · next hrule => simpa [hrule] using h
  · next fault _ hrule =>
    have hscan : r.scanner.scan.1 = .error fault := by simpa [hrule] using h
    have hrefuses : (t.next r.current).Refuses r.scanner fault := .lexical hscan
    exact hrefuses.failsFrom.after (.single hmore hadmits) (.single hat hmore)

end Reader

end Calculator
