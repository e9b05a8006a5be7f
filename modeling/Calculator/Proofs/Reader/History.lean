import Calculator.Proofs.Token.Stream
import Calculator.Expr.Reader

/-!
# What a reader has taken

A reader moves on by taking the token that it looks at. If what follows that token is no token, it stays
where it is, and only its scanner moves. `History` is the record of both, from the reader that was made
first to any reader that is reached from it, between two calls or in the middle of one.

A reader with a history is in order (`InOrder`): the token taken last stops before the one that is looked
at starts, and this one starts before the place that the scanner has come to.
-/

namespace Calculator

namespace Scanner

/-! ## Where a scan leads -/

/-- What a scanner finds starts where it stands, and the scanner moves to where that stops. At a
character that starts no token it does not move. -/
theorem token_places (s : Scanner) :
    s.position ≤ s.token.2.position ∧
      (∀ token, s.token.1 = .ok token → token.span.start = s.position ∧
        (token.kind ≠ .endOfInput → token.span.stop = s.token.2.position)) ∧
      ∀ fault, s.token.1 = .error fault →
        (∃ c, fault.cause = .unexpectedCharacter c ∧ fault.span.start = s.position ∧ s.token.2 = s) ∨
        ∃ digits, fault.cause = .numberTooLarge digits ∧ fault.span.stop = s.token.2.position := by
  unfold token
  split
  · refine ⟨Nat.le_refl _, fun token htoken => ?_, nofun⟩
    obtain rfl := Except.ok.inj htoken
    exact ⟨rfl, fun hmore => absurd rfl hmore⟩
  · split
    · refine ⟨Nat.le_add_right _ _, ?_⟩
      unfold number numberItem
      dsimp only
      split
      · refine ⟨fun token htoken => ?_, nofun⟩
        obtain rfl := Except.ok.inj htoken
        exact ⟨rfl, fun _ => rfl⟩
      · refine ⟨fun _ h => (nomatch h), fun fault hfault => ?_⟩
        obtain rfl := Except.error.inj hfault
        exact Or.inr ⟨_, rfl, rfl⟩
    · split
      · refine ⟨Nat.le_add_right _ _, fun token htoken => ?_, nofun⟩
        obtain rfl := Except.ok.inj htoken
        exact ⟨rfl, fun _ => rfl⟩
      · refine ⟨Nat.le_refl _, fun _ h => (nomatch h), fun fault hfault => ?_⟩
        obtain rfl := Except.error.inj hfault
        exact Or.inl ⟨_, rfl, rfl, rfl⟩

theorem position_le_skip (p : Char → Bool) (s : Scanner) : s.position ≤ (s.skip p).position :=
  Nat.le_add_right _ _

theorem position_le_scan (s : Scanner) : s.position ≤ s.scan.2.position :=
  Nat.le_trans (position_le_skip Text.isBlank s) (token_places _).1

/-- A token lies between the two places of the scanner. -/
theorem scan_places {s behind : Scanner} {token : Token} (h : s.scan = (.ok token, behind)) :
    s.position ≤ token.span.start ∧ token.span.start ≤ behind.position ∧
      (token.kind ≠ .endOfInput → token.span.stop = behind.position) := by
  obtain ⟨hle, hplaces, -⟩ := token_places (s.skip Text.isBlank)
  rw [← scan, h] at hle hplaces
  obtain ⟨hstart, hstop⟩ := hplaces token rfl
  rw [hstart]
  exact ⟨position_le_skip _ _, hle, hstop⟩

/-- A fault is found behind the place of the scanner. -/
theorem position_le_of_scan_error {s : Scanner} {fault : Fault} (h : s.scan.1 = .error fault) :
    s.position ≤ fault.span.start := by
  suffices hstart : fault.span.start = (s.skip Text.isBlank).position by
    rw [hstart]
    exact position_le_skip _ _
  unfold scan token at h
  split at h
  · cases h
  · split at h
    · unfold number numberItem at h
      dsimp only at h
      split at h
      · cases h
      · rw [← Except.error.inj h]
    · split at h
      · cases h
      · rw [← Except.error.inj h]

theorem Reads.position_le {s t : Scanner} {tokens : List Token} (h : Reads s tokens t) :
    s.position ≤ t.position := by
  induction h with
  | nil => exact Nat.le_refl _
  | @cons s _ _ _ _ hscan _ _ ih =>
    have hle := position_le_scan s
    rw [hscan] at hle
    exact Nat.le_trans hle ih

theorem skip_skip (p : Char → Bool) (s : Scanner) : (s.skip p).skip p = s.skip p := by
  have htake : (s.rest.dropWhile p).takeWhile p = [] := by
    cases hrest : s.rest.dropWhile p with
    | nil => rfl
    | cons c rest =>
      have hc : p c = false := by simpa [hrest] using List.head?_dropWhile_not p s.rest
      rw [List.takeWhile_cons_of_neg (by simp [hc])]
  have hdrop : (s.rest.dropWhile p).dropWhile p = s.rest.dropWhile p := by
    have hsplit : (s.rest.dropWhile p).takeWhile p ++ (s.rest.dropWhile p).dropWhile p =
        s.rest.dropWhile p := List.takeWhile_append_dropWhile
    rwa [htake, List.nil_append] at hsplit
  simp [skip, htake, hdrop]

/-- In front of a character that starts no token, a scanner stays, and finds the same again. Behind a
number that is too large it goes on. -/
theorem scan_error {s behind : Scanner} {fault : Fault} (h : s.scan = (.error fault, behind)) :
    (∃ c, fault.cause = .unexpectedCharacter c ∧ behind.position = fault.span.start ∧
        behind.scan = (.error fault, behind)) ∨
      ∃ digits, fault.cause = .numberTooLarge digits ∧ behind.position = fault.span.stop := by
  obtain ⟨-, -, hfaults⟩ := token_places (s.skip Text.isBlank)
  rw [← scan, h] at hfaults
  rcases hfaults fault rfl with ⟨c, hcause, hstart, hsame⟩ | ⟨digits, hcause, hstop⟩
  · dsimp only at hsame
    subst hsame
    refine Or.inl ⟨c, hcause, hstart.symm, ?_⟩
    rw [scan, skip_skip, ← scan, h]
  · exact Or.inr ⟨digits, hcause, hstop.symm⟩

end Scanner

namespace Reader

/-! ## Histories -/

/-- A reader has come from a first one, and has taken tokens on its way. What has been counted meanwhile
is no part of it. -/
inductive History (first : Reader) : List Token → Reader → Prop where
  | start : History first [] first
  /-- The token that is looked at is taken. -/
  | take {taken : List Token} {r : Reader} {next : Token} {behind : Scanner}
      (h : History first taken r) (hmore : r.current.kind ≠ .endOfInput)
      (hscan : r.scanner.scan = (.ok next, behind)) :
      History first (taken ++ [r.current])
        { r with scanner := behind, current := next, previousEnd := r.current.span.stop }
  /-- The token that is looked at is not taken, because no token follows it. -/
  | stumble {taken : List Token} {r : Reader} {fault : Fault} {behind : Scanner}
      (h : History first taken r) (hmore : r.current.kind ≠ .endOfInput)
      (hscan : r.scanner.scan = (.error fault, behind)) :
      History first taken { r with scanner := behind }
  | recount {taken : List Token} {r : Reader} (h : History first taken r) (height groupDepth : Nat) :
      History first taken { r with height, groupDepth }

/-- The token taken last, the token that is looked at and the scanner stand one behind the other. -/
structure InOrder (r : Reader) : Prop where
  previousEnd_le : r.previousEnd ≤ r.current.span.start
  start_le : r.current.span.start ≤ r.scanner.position
  stop_le : r.current.kind ≠ .endOfInput → r.current.span.stop ≤ r.scanner.position

theorem inOrder_of_ofScanner {s : Scanner} {r : Reader} (h : ofScanner s = .ok r) :
    r.InOrder ∧ r.groupDepth = 0 := by
  unfold ofScanner at h
  split at h
  · next token behind hscan =>
    obtain rfl := Except.ok.inj h
    obtain ⟨-, hstart, hstop⟩ := Scanner.scan_places hscan
    exact ⟨⟨Nat.zero_le _, hstart, fun hmore => Nat.le_of_eq (hstop hmore)⟩, rfl⟩
  · cases h

namespace History

variable {first r : Reader} {taken : List Token}

theorem inOrder (h : History first taken r) (hfirst : first.InOrder) : r.InOrder := by
  induction h with
  | start => exact hfirst
  | take _ hmore hscan ih =>
    obtain ⟨hfrom, hstart, hstop⟩ := Scanner.scan_places hscan
    exact ⟨Nat.le_trans (ih.stop_le hmore) hfrom, hstart, fun hmore => Nat.le_of_eq (hstop hmore)⟩
  | @stumble _ r _ _ _ _ hscan ih =>
    have hle := Scanner.position_le_scan r.scanner
    rw [hscan] at hle
    exact ⟨ih.previousEnd_le, Nat.le_trans ih.start_le hle,
      fun hmore => Nat.le_trans (ih.stop_le hmore) hle⟩
  | recount _ _ _ ih => exact ⟨ih.previousEnd_le, ih.start_le, ih.stop_le⟩

/-- Once a token has been taken, its end is remembered. -/
theorem previousEnd_eq (h : History first taken r) {last : Token} (hlast : taken.getLast? = some last) :
    r.previousEnd = last.span.stop := by
  induction h with
  | start => cases hlast
  | take =>
    rw [List.getLast?_concat] at hlast
    obtain rfl := Option.some.inj hlast
    rfl
  | stumble _ _ _ ih => exact ih hlast
  | recount _ _ _ ih => exact ih hlast

end History

end Reader

end Calculator
