import Calculator.Proofs.Binary64.Nearest

/-!
# Operations as rounded operations on rationals

As long as nothing overflows, an operation on double-precision numbers gives the rounded result of
the same operation on the rationals they stand for. The bound 2⁶⁴ on results is far from tight, but
it is all that quotients of words need.
-/

namespace Calculator.Binary64

theorem rankOf_lt_infinityRank {x : ℚ} (h : |x| ≤ 2 ^ 64) : rankOf x < infinityRank := by
  have hmagnitude : magnitude (1086 * stretch + stretch) = 2 ^ 64 := by
    have hsplit : (2 : ℚ) ^ 1086 = 2 ^ 12 * 2 ^ 1074 := by rw [← pow_add]
    rw [magnitude_add (Or.inr le_rfl) (by omega), hsplit, mul_assoc, mul_assoc,
      two_pow_mul_quantum_eq_one]
    norm_num [stretch]
  have hle := (roundsTo_rankOf x).rank_le (roundsTo_magnitude _) (h.trans hmagnitude.ge)
  refine lt_of_le_of_lt hle ?_
  unfold infinityRank
  unfold stretch
  decide

theorem toRat?_round {negative : Bool} {x : ℚ} (h : |x| ≤ 2 ^ 64) :
    (round negative x).toRat? = some (signed negative (rankOf x)) := by
  rw [round_of_lt (rankOf_lt_infinityRank h)]
  rfl

/-- Rounding a magnitude and giving it a sign. -/
theorem signed_rankOf {negative : Bool} {x : ℚ} (h : 0 ≤ x) :
    signed negative (rankOf x) = nearest (if negative then -x else x) := by
  cases negative with
  | false => rw [signed_false, if_neg Bool.false_ne_true, nearest_of_nonneg h]
  | true => rw [signed_true, if_pos rfl, nearest_neg, nearest_of_nonneg h]

theorem toRat?_ofRat {x : ℚ} (h : |x| ≤ 2 ^ 64) : (ofRat x).toRat? = some (nearest x) :=
  toRat?_round h

theorem toRat?_ofInt {n : ℤ} (h : |n| ≤ 2 ^ 64) : (ofInt n).toRat? = some (nearest n) :=
  toRat?_ofRat (by exact_mod_cast h)

theorem toRat?_eq_some_iff {x : Binary64} {a : ℚ} :
    x.toRat? = some a ↔ ∃ negative rank, x = .finite negative rank ∧ signed negative rank = a := by
  cases x with
  | nan => simp [toRat?]
  | infinite negative => simp [toRat?]
  | finite negative rank => simp [toRat?]

@[simp] theorem signed_zero (negative : Bool) : signed negative 0 = 0 := by
  cases negative <;> simp

theorem toRat?_div {x y : Binary64} {a b : ℚ} (hx : x.toRat? = some a) (hy : y.toRat? = some b)
    (hb : b ≠ 0) (h : |a / b| ≤ 2 ^ 64) : (x.div y).toRat? = some (nearest (a / b)) := by
  obtain ⟨s, m, rfl, rfl⟩ := toRat?_eq_some_iff.mp hx
  obtain ⟨t, n, rfl, rfl⟩ := toRat?_eq_some_iff.mp hy
  have hn : n.val ≠ 0 := by
    intro hzero
    rw [hzero, signed_zero] at hb
    exact hb rfl
  have hnonneg : 0 ≤ magnitude m / magnitude n := div_nonneg (magnitude_nonneg _) (magnitude_nonneg _)
  have hbound : |magnitude m / magnitude n| ≤ 2 ^ 64 := by
    rwa [abs_of_nonneg hnonneg, ← abs_signed s, ← abs_signed t, ← abs_div]
  have hsign : (if (s ^^ t) then -(magnitude m / magnitude n) else magnitude m / magnitude n) =
      signed s m / signed t n := by
    cases s <;> cases t <;> simp [neg_div, div_neg]
  rw [div, if_neg hn, toRat?_round hbound, signed_rankOf hnonneg, hsign]

theorem toRat?_add {x y : Binary64} {a b : ℚ} (hx : x.toRat? = some a) (hy : y.toRat? = some b)
    (h : |a + b| ≤ 2 ^ 64) : (x.add y).toRat? = some (nearest (a + b)) := by
  obtain ⟨s, m, rfl, rfl⟩ := toRat?_eq_some_iff.mp hx
  obtain ⟨t, n, rfl, rfl⟩ := toRat?_eq_some_iff.mp hy
  by_cases hsum : signed s m + signed t n = 0
  · rw [hsum, nearest_zero, add, if_pos hsum]
    exact congrArg some (signed_zero _)
  · rw [add, if_neg hsum, toRat?_ofRat h]

end Calculator.Binary64
