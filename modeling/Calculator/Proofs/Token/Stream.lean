import Calculator.Token.Scanner

/-!
# Streams of tokens

A scanner reads tokens until its stream ends with the end of the input or with a fault. `Reads` is
such a reading as a relation between scanners, token by token, so readings can be cut and joined.
`streams_iff` says that the list of items of a scanner is the tokens that it reads and the one item
behind them.
-/

namespace Calculator.Scanner

/-- One scanner reads tokens and becomes another. -/
inductive Reads : Scanner → List Token → Scanner → Prop where
  | nil (s : Scanner) : Reads s [] s
  | cons {s behind t : Scanner} {token : Token} {tokens : List Token}
      (hscan : s.scan = (.ok token, behind)) (hmore : token.kind ≠ .endOfInput)
      (rest : Reads behind tokens t) : Reads s (token :: tokens) t

theorem Reads.single {s behind : Scanner} {token : Token} (hscan : s.scan = (.ok token, behind))
    (hmore : token.kind ≠ .endOfInput) : Reads s [token] behind :=
  .cons hscan hmore (.nil _)

theorem Reads.append {s t u : Scanner} {left right : List Token} (hleft : Reads s left t)
    (hright : Reads t right u) : Reads s (left ++ right) u := by
  induction hleft with
  | nil => exact hright
  | cons hscan hmore _ ih => exact .cons hscan hmore (ih hright)

theorem Reads.split {s u : Scanner} {left right : List Token} (h : Reads s (left ++ right) u) :
    ∃ t, Reads s left t ∧ Reads t right u := by
  induction left generalizing s with
  | nil => exact ⟨s, .nil s, h⟩
  | cons token left ih =>
    cases h with
    | cons hscan hmore rest =>
      obtain ⟨t, hleft, hright⟩ := ih rest
      exact ⟨t, .cons hscan hmore hleft, hright⟩

/-- A reading up to the end goes on where another one has stopped. -/
theorem Reads.exists_rest {s t u : Scanner} {before tokens : List Token} (h : Reads s before t)
    (hall : Reads s tokens u) (hlast : u.scan.1.isLast = true) :
    ∃ rest, tokens = before ++ rest ∧ Reads t rest u := by
  induction h generalizing tokens with
  | nil => exact ⟨tokens, rfl, hall⟩
  | @cons s behind t token before hscan hmore _ ih =>
    cases hall with
    -- the longer reading does not stop at a token that goes on
    | nil => simp [hscan, Item.isLast, hmore] at hlast
    | cons hscan' _ rest' =>
      obtain ⟨htoken, rfl⟩ := Prod.mk.inj (hscan.symm.trans hscan')
      obtain rfl := Except.ok.inj htoken
      obtain ⟨rest, rfl, hrest⟩ := ih rest'
      exact ⟨rest, rfl, hrest⟩

theorem Reads.scan_eq {s t : Scanner} {token : Token} {tokens : List Token}
    (h : Reads s (token :: tokens) t) : ∃ behind, s.scan = (.ok token, behind) := by
  cases h with
  | cons hscan _ _ => exact ⟨_, hscan⟩

/-! ## What a scan leaves alone -/

@[simp] theorem skip_finished (p : Char → Bool) (s : Scanner) : (s.skip p).finished = s.finished :=
  rfl

theorem token_finished (s : Scanner) : s.token.2.finished = s.finished := by
  unfold token
  split
  · rfl
  · split
    · rfl
    · split <;> rfl

theorem scan_finished (s : Scanner) : s.scan.2.finished = s.finished := by
  rw [scan, token_finished, skip_finished]

theorem Reads.finished_eq {s t : Scanner} {tokens : List Token} (h : Reads s tokens t) :
    t.finished = s.finished := by
  induction h with
  | nil => rfl
  | @cons s behind _ _ _ hscan _ _ ih =>
    rw [ih, ← scan_finished s, hscan]

/-- A number that is read has a value. -/
theorem scan_value_isSome {s behind : Scanner} {token : Token}
    (hscan : s.scan = (.ok token, behind)) (hkind : token.kind = .integer) :
    token.value.isSome := by
  have hitem : (s.skip Text.isBlank).token.1 = .ok token := congrArg Prod.fst hscan
  unfold Scanner.token at hitem
  split at hitem
  · obtain rfl := Except.ok.inj hitem
    simp [Token.endOfInput] at hkind
  · split at hitem
    · unfold number numberItem at hitem
      dsimp only at hitem
      split at hitem
      · obtain rfl := Except.ok.inj hitem
        rfl
      · cases hitem
    · split at hitem
      · next c _ _ _ kind hmark =>
        obtain rfl := Except.ok.inj hitem
        obtain rfl : kind = .integer := hkind
        unfold markKind? at hmark
        split at hmark
        · simp at hmark
        · split at hmark
          · simp at hmark
          · simp at hmark
      · cases hitem

/-! ## The stream of a scanner -/

/-- The stream of a scanner: tokens, and the item that it ends with. -/
def Streams (s : Scanner) (tokens : List Token) (last : Item) : Prop :=
  s.items.1 = tokens.map Except.ok ++ [last]

theorem items_of_isLast {s : Scanner} (hs : s.finished = false) (hlast : s.scan.1.isLast = true) :
    s.items.1 = [s.scan.1] := by
  have hnext : s.next? = (some s.scan.1, { s.scan.2 with finished := true }) := by
    simp [next?, hs, hlast]
  have hend : ({ s.scan.2 with finished := true } : Scanner).items.1 = [] := by
    rw [items]
    simp [next?]
  rw [items, hnext]
  simp [hend]

theorem items_of_more {s behind : Scanner} {token : Token} (hs : s.finished = false)
    (hscan : s.scan = (.ok token, behind)) (hmore : token.kind ≠ .endOfInput) :
    s.items.1 = .ok token :: behind.items.1 := by
  have hbehind : behind.finished = false := by
    have h := scan_finished s
    rw [hscan, hs] at h
    exact h
  have hnext : s.next? = (some (.ok token), behind) := by
    have hopen : ({ behind with finished := false } : Scanner) = behind := by rw [← hbehind]
    simp [next?, hs, hscan, Item.isLast, hmore, hopen]
  rw [items, hnext]

theorem Reads.items_eq {s t : Scanner} {tokens : List Token} (h : Reads s tokens t)
    (hs : s.finished = false) : s.items.1 = tokens.map Except.ok ++ t.items.1 := by
  induction h with
  | nil => rfl
  | @cons s behind _ _ _ hscan hmore _ ih =>
    have hbehind : behind.finished = false := by
      have h := scan_finished s
      rw [hscan, hs] at h
      exact h
    rw [items_of_more hs hscan hmore, ih hbehind, List.map_cons, List.cons_append]

/-- Every scanner reads on until its stream ends. -/
theorem exists_reads (s : Scanner) : ∃ tokens t, Reads s tokens t ∧ t.scan.1.isLast = true := by
  cases hlast : s.scan.1.isLast with
  | true => exact ⟨[], s, .nil s, hlast⟩
  | false =>
    obtain ⟨token, htoken, hmore⟩ : ∃ token, s.scan.1 = .ok token ∧ token.kind ≠ .endOfInput := by
      cases hitem : s.scan.1 with
      | error fault => simp [hitem, Item.isLast] at hlast
      | ok token => exact ⟨token, rfl, by simpa [hitem, Item.isLast] using hlast⟩
    have hshorter := scan_length_lt hlast
    obtain ⟨tokens, t, hreads, ht⟩ := exists_reads s.scan.2
    exact ⟨token :: tokens, t, .cons (Prod.ext htoken rfl) hmore hreads, ht⟩
termination_by s.rest.length

theorem map_ok_append_inj {tokens tokens' : List Token} {last last' : Item}
    (h : tokens.map Except.ok ++ [last] = tokens'.map Except.ok ++ [last']) :
    tokens = tokens' ∧ last = last' := by
  obtain ⟨htokens, hlast⟩ := List.append_inj' h rfl
  have hinj : ∀ a b : Token, (Except.ok a : Item) = Except.ok b → a = b := fun a b => Except.ok.inj
  exact ⟨(List.map_inj_right hinj).mp htokens, List.singleton_inj.mp hlast⟩

theorem Streams.unique {s : Scanner} {tokens tokens' : List Token} {last last' : Item}
    (h : s.Streams tokens last) (h' : s.Streams tokens' last') : tokens = tokens' ∧ last = last' :=
  map_ok_append_inj (h.symm.trans h')

/-- The stream of a scanner is what it reads, and the item at which it stops. -/
theorem streams_iff {s : Scanner} (hs : s.finished = false) {tokens : List Token} {last : Item} :
    s.Streams tokens last ↔ ∃ t, Reads s tokens t ∧ t.scan.1 = last ∧ last.isLast = true := by
  have hreads : ∀ {tokens t}, Reads s tokens t → t.scan.1.isLast = true →
      s.Streams tokens t.scan.1 := by
    intro tokens t h hlast
    rw [Streams, h.items_eq hs, items_of_isLast (h.finished_eq.trans hs) hlast]
  constructor
  · intro h
    obtain ⟨others, t, hothers, hlast⟩ := exists_reads s
    obtain ⟨rfl, rfl⟩ := h.unique (hreads hothers hlast)
    exact ⟨t, hothers, rfl, hlast⟩
  · rintro ⟨t, h, rfl, hlast⟩
    exact hreads h hlast

end Calculator.Scanner
