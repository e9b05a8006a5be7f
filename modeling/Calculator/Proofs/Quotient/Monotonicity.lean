import Calculator.Proofs.Quotient.Accuracy

/-!
# Quotients in order

With a larger dividend, and a divisor above zero, the computed quotient is no smaller, although the
three paths round differently (`quotient_monotone`).

For dividends from zero on, the whole parts are a frame. Whatever the path, what is computed lies
between the rounded whole part and the rounded next integer (`nearest_tdiv_le_computed`,
`computed_le_nearest_add_one`). So dividends with different whole parts are in order. Those with the
same whole part are in order too: on one path by monotone rounding, and from the second path to the
third because the rests differ by more than what a rounding can make up
(`le_fraction_of_lt_of_narrow`).

Below zero everything is mirrored.
-/

namespace Calculator

open Binary64

namespace Binary64

theorem nearest_nonneg {x : ℚ} (h : 0 ≤ x) : 0 ≤ nearest x := by
  have hmono := nearest_mono h
  rwa [nearest_zero] at hmono

/-- From 2⁵³ on, neighbours are at least two apart. -/
theorem add_two_le_magnitude_succ {rank : ℕ} (h : 2 ^ 53 ≤ magnitude rank) :
    magnitude rank + 2 ≤ magnitude (rank + 1) := by
  have htwo : (2 : ℚ) ^ 1075 * quantum = 2 := by
    rw [pow_succ, mul_right_comm, two_pow_mul_quantum_eq_one, one_mul]
  have hstart : magnitude (1075 * stretch + stretch) = 2 ^ 53 := by
    rw [magnitude_add (Or.inr le_rfl) (by omega), mul_assoc, htwo]
    norm_num [stretch]
  have hrank : 1075 * stretch + stretch ≤ rank := by
    rw [← hstart] at h
    exact magnitude_strictMono.le_iff_le.mp h
  have hdoublings : 1075 ≤ doublings rank := by
    unfold doublings
    unfold stretch at *
    omega
  have hgap : (2 : ℚ) ≤ (1 <<< doublings rank : ℕ) * quantum := by
    have hpow : (2 : ℚ) ^ 1075 ≤ 2 ^ doublings rank := pow_le_pow_right₀ one_le_two hdoublings
    rw [Nat.one_shiftLeft, Nat.cast_pow, Nat.cast_ofNat]
    exact htwo.ge.trans (mul_le_mul_of_nonneg_right hpow quantum_pos.le)
  rw [magnitude_eq, magnitude_eq, quanta_succ, Nat.cast_add, add_mul]
  linarith

/-- What is added to a wide whole number behind the point is lost. -/
theorem nearest_add_of_wide {n : ℤ} {y : ℚ} (hn : 2 ^ 53 ≤ n) (hnonneg : 0 ≤ y) (hlt : y < 1) :
    nearest (nearest n + y) = nearest n := by
  have hwide : (2 : ℚ) ^ 53 ≤ n := by exact_mod_cast hn
  have hpos : (0 : ℚ) ≤ n := le_trans (by norm_num) hwide
  have hfixed := nearest_intCast (m := 2 ^ 53) (by norm_num)
  rw [Int.cast_pow, Int.cast_ofNat] at hfixed
  have hlow : 2 ^ 53 ≤ nearest n := hfixed.ge.trans (nearest_mono hwide)
  rw [nearest_of_nonneg hpos] at hlow ⊢
  generalize rankOf n = rank at hlow ⊢
  have hgap := add_two_le_magnitude_succ hlow
  have hsum : 0 ≤ magnitude rank + y := add_nonneg (magnitude_nonneg rank) hnonneg
  have hrounds : RoundsTo |magnitude rank + y| rank := by
    rw [abs_of_nonneg hsum]
    refine .of_floor ?_ ?_ fun htie => absurd htie ?_ <;> linarith
  rw [nearest_of_nonneg hsum, rankOf_eq_iff.mpr hrounds]

end Binary64

/-! ## The part after the point -/

section

variable {l l₁ l₂ r : ℤ}

theorem tmod_nonneg_of_nonneg (hl : 0 ≤ l) : 0 ≤ ((l.tmod r : ℤ) : ℚ) := by
  exact_mod_cast Int.tmod_nonneg r hl

theorem fraction_nonneg (hl : 0 ≤ l) (hr : 0 < r) : 0 ≤ fraction l r := by
  have hrest := nearest_nonneg (tmod_nonneg_of_nonneg (r := r) hl)
  have hdivisor : 0 ≤ nearest r := nearest_nonneg (by exact_mod_cast hr.le)
  exact nearest_nonneg (div_nonneg hrest hdivisor)

theorem fraction_mono (hr : 0 < r) (h : l₁.tmod r ≤ l₂.tmod r) : fraction l₁ r ≤ fraction l₂ r := by
  have hdivisor : 0 ≤ nearest r := nearest_nonneg (by exact_mod_cast hr.le)
  have hrest : nearest (l₁.tmod r) ≤ nearest (l₂.tmod r) := nearest_mono (by exact_mod_cast h)
  exact nearest_mono (div_le_div_of_nonneg_right hrest hdivisor)

/-- If the divisor is not wide, the rest is not either, and only their quotient is rounded. -/
theorem fraction_of_narrow (hne : r ≠ 0) (hr : r.natAbs ≤ exactLimit) :
    fraction l r = nearest (l.tmod r / r) := by
  have hrest : (l.tmod r).natAbs ≤ exactLimit := by
    rw [Int.natAbs_tmod]
    exact (Nat.mod_lt _ (Int.natAbs_pos.mpr hne)).le.trans hr
  rw [fraction, nearest_of_natAbs_le hrest, nearest_of_natAbs_le hr]

/-- A divisor of fifty-three digits leaves a step of 2⁻⁵³ at least between two rests. -/
theorem rest_div_add_le (hr : 0 < r) (hnarrow : r.natAbs ≤ exactLimit) {m n : ℤ} (h : m < n) :
    (m : ℚ) / r + 1 / 2 ^ 53 ≤ n / r := by
  have hpos : (0 : ℚ) < r := by exact_mod_cast hr
  have hbound : (r : ℚ) ≤ 2 ^ 53 := by
    unfold exactLimit at hnarrow
    exact_mod_cast (show r ≤ 2 ^ 53 by omega)
  have hstep : (m : ℚ) + 1 ≤ n := by exact_mod_cast h
  calc (m : ℚ) / r + 1 / 2 ^ 53 ≤ m / r + 1 / r := by
        gcongr
    _ = (m + 1) / r := (add_div _ _ _).symm
    _ ≤ n / r := by gcongr

theorem fraction_lt_one (hr : 0 < r) (hnarrow : r.natAbs ≤ exactLimit) : fraction l r < 1 := by
  have hrest : l.tmod r < r := Int.tmod_lt_of_pos l hr
  have hself : (r : ℚ) / r = 1 := div_self (by exact_mod_cast hr.ne')
  have hstep := rest_div_add_le hr hnarrow hrest
  have hfixed : nearest ((2 ^ 53 - 1 : ℤ) / 2 ^ 53) = (2 ^ 53 - 1 : ℤ) / 2 ^ 53 :=
    nearest_div_two_pow (by decide) (by norm_num)
  have hle : (l.tmod r : ℚ) / r ≤ (2 ^ 53 - 1 : ℤ) / 2 ^ 53 := by
    push_cast
    linarith
  rw [fraction_of_narrow hr.ne' hnarrow]
  refine lt_of_le_of_lt ((nearest_mono hle).trans_eq hfixed) ?_
  norm_num

/-- The part after the point is rounded by less than what one more in the rest adds. -/
theorem le_fraction_of_lt_of_narrow (hr : 0 < r) (hnarrow : r.natAbs ≤ exactLimit)
    (h : l₁.tmod r < l₂.tmod r) : (l₁.tmod r : ℚ) / r ≤ fraction l₂ r := by
  have hstep := rest_div_add_le hr hnarrow h
  have hbound : |r| ≤ 2 ^ 63 := by
    unfold exactLimit at hnarrow
    rw [Int.abs_eq_natAbs]
    omega
  have herror := abs_nearest_div_sub_le (l := l₂.tmod r) hr.ne' hbound
  have hrest : |(l₂.tmod r : ℚ) / r| ≤ 1 := by
    rw [abs_div]
    refine div_le_one_of_le₀ ?_ (abs_nonneg _)
    exact_mod_cast (abs_tmod_lt l₂ hr.ne').le
  have hlower := (abs_le.mp herror).1
  rw [fraction_of_narrow hr.ne' hnarrow]
  linarith

/-! ## Dividends from zero on -/

theorem nearest_tdiv_le_computed (hl : 0 ≤ l) (hr : 0 < r) : nearest (l.tdiv r) ≤ computed l r := by
  have hvalue := tdiv_add_div (l := l) hr.ne'
  unfold computed
  split
  · have hrest : 0 ≤ (l.tmod r : ℚ) / r :=
      div_nonneg (tmod_nonneg_of_nonneg hl) (by exact_mod_cast hr.le)
    exact nearest_mono (by linarith)
  · have hfraction := fraction_nonneg hl hr
    calc nearest (l.tdiv r) = nearest (nearest (l.tdiv r)) := (nearest_nearest _).symm
      _ ≤ nearest (nearest (l.tdiv r) + fraction l r) := nearest_mono (by linarith)

theorem computed_le_nearest_add_one (hl : 0 ≤ l) (hbound : l ≤ 2 ^ 63) (hr : 0 < r) :
    computed l r ≤ nearest (l.tdiv r + 1) := by
  have hvalue := tdiv_add_div (l := l) hr.ne'
  have hrest : (l.tmod r : ℚ) / r ≤ 1 := by
    refine div_le_one_of_le₀ ?_ (by exact_mod_cast hr.le)
    exact_mod_cast (Int.tmod_lt_of_pos l hr).le
  unfold computed
  split
  · exact nearest_mono (by linarith)
  · have hwhole : 0 ≤ l.tdiv r := Int.tdiv_nonneg hl hr.le
    by_cases hwide : 2 ^ 53 ≤ l.tdiv r
    · -- then the divisor is small, and only the whole part counts
      have hnarrow : r.natAbs ≤ exactLimit := by
        have hsplit := Int.mul_tdiv_add_tmod l r
        have hnonneg := Int.tmod_nonneg r hl
        have hle : r * 2 ^ 53 ≤ r * l.tdiv r := mul_le_mul_of_nonneg_left hwide hr.le
        unfold exactLimit
        omega
      rw [nearest_add_of_wide hwide (fraction_nonneg hl hr) (fraction_lt_one hr hnarrow)]
      exact nearest_mono (by linarith)
    · have hfixed : nearest (l.tdiv r) = l.tdiv r :=
        nearest_intCast (by rw [abs_of_nonneg hwhole]; omega)
      have hfraction := (le_abs_self _).trans (abs_fraction_le_one l hr.ne')
      rw [hfixed]
      exact nearest_mono (by linarith)

/-- With one whole part, a larger dividend has a larger rest. -/
theorem tmod_lt_tmod (hwhole : l₁.tdiv r = l₂.tdiv r) (h : l₁ < l₂) : l₁.tmod r < l₂.tmod r := by
  have hleft := Int.mul_tdiv_add_tmod l₁ r
  have hright := Int.mul_tdiv_add_tmod l₂ r
  rw [hwhole] at hleft
  linarith

/-- From the second path to the third: the larger rest makes up for its rounding. -/
theorem computed_le_of_narrow (hr : 0 < r) (hwhole : l₁.tdiv r = l₂.tdiv r) (h : l₁ < l₂)
    (hnarrow : l₁.natAbs ≤ exactLimit ∧ r.natAbs ≤ exactLimit)
    (hwide : ¬(r ∣ l₂ ∨ (l₂.natAbs ≤ exactLimit ∧ r.natAbs ≤ exactLimit))) :
    computed l₁ r ≤ computed l₂ r := by
  have hvalue := tdiv_add_div (l := l₁) hr.ne'
  have hfixed : nearest (l₂.tdiv r) = l₂.tdiv r := by
    refine nearest_of_natAbs_le ?_
    rw [← hwhole, Int.natAbs_tdiv]
    exact (Nat.div_le_self _ _).trans hnarrow.1
  have hfraction := le_fraction_of_lt_of_narrow hr hnarrow.2 (tmod_lt_tmod hwhole h)
  rw [computed, computed, if_pos (Or.inr hnarrow), if_neg hwide, hfixed, ← hvalue, hwhole]
  exact nearest_mono (by linarith)

theorem computed_mono_of_tdiv_eq (hnonneg : 0 ≤ l₁) (hr : 0 < r) (hwhole : l₁.tdiv r = l₂.tdiv r)
    (h : l₁ ≤ l₂) : computed l₁ r ≤ computed l₂ r := by
  rcases h.eq_or_lt with rfl | hlt
  · exact le_rfl
  have hrests := tmod_lt_tmod hwhole hlt
  by_cases hexact₂ : r ∣ l₂ ∨ (l₂.natAbs ≤ exactLimit ∧ r.natAbs ≤ exactLimit)
  · -- then the smaller dividend is no wider; had the larger no rest, the smaller could have none less
    have hexact₁ : r ∣ l₁ ∨ (l₁.natAbs ≤ exactLimit ∧ r.natAbs ≤ exactLimit) := by
      rcases hexact₂ with hdvd | ⟨hnarrow, hdivisor⟩
      · have hrest := Int.tmod_eq_zero_of_dvd hdvd
        have hnonnegative := Int.tmod_nonneg r hnonneg
        omega
      · exact Or.inr ⟨by omega, hdivisor⟩
    rw [computed, computed, if_pos hexact₁, if_pos hexact₂]
    have hpos : (0 : ℚ) < r := by exact_mod_cast hr
    refine nearest_mono ?_
    gcongr
  · by_cases hdvd : r ∣ l₁
    · rw [computed, if_pos (Or.inl hdvd), ← cast_tdiv_of_dvd hr.ne' hdvd, hwhole]
      exact nearest_tdiv_le_computed (hnonneg.trans h) hr
    · by_cases hnarrow : l₁.natAbs ≤ exactLimit ∧ r.natAbs ≤ exactLimit
      · exact computed_le_of_narrow hr hwhole hlt hnarrow hexact₂
      · rw [computed, computed, if_neg (not_or.mpr ⟨hdvd, hnarrow⟩), if_neg hexact₂, hwhole]
        have hfraction := fraction_mono hr hrests.le
        exact nearest_mono (by linarith)

theorem computed_mono_of_nonneg (hnonneg : 0 ≤ l₁) (hbound : l₁ ≤ 2 ^ 63) (hr : 0 < r)
    (h : l₁ ≤ l₂) : computed l₁ r ≤ computed l₂ r := by
  have hwhole : l₁.tdiv r ≤ l₂.tdiv r := Int.tdiv_le_tdiv hr h
  rcases hwhole.eq_or_lt with hsame | hlt
  · exact computed_mono_of_tdiv_eq hnonneg hr hsame h
  · have hnext : ((l₁.tdiv r : ℤ) : ℚ) + 1 ≤ l₂.tdiv r := by exact_mod_cast hlt
    calc computed l₁ r ≤ nearest (l₁.tdiv r + 1) := computed_le_nearest_add_one hnonneg hbound hr
      _ ≤ nearest (l₂.tdiv r) := nearest_mono hnext
      _ ≤ computed l₂ r := nearest_tdiv_le_computed (hnonneg.trans h) hr

/-! ## All dividends -/

theorem fraction_neg_left (l r : ℤ) : fraction (-l) r = -fraction l r := by
  rw [fraction, fraction, Int.neg_tmod, Int.cast_neg, nearest_neg, neg_div, nearest_neg]

theorem computed_neg_left (l r : ℤ) : computed (-l) r = -computed l r := by
  unfold computed
  simp only [dvd_neg, Int.natAbs_neg, Int.neg_tdiv, fraction_neg_left, Int.cast_neg, neg_div,
    nearest_neg, ← neg_add]
  split <;> rfl

theorem fraction_neg_right (l r : ℤ) : fraction l (-r) = -fraction l r := by
  rw [fraction, fraction, Int.tmod_neg, Int.cast_neg, nearest_neg, div_neg, nearest_neg]

theorem computed_neg_right (l r : ℤ) : computed l (-r) = -computed l r := by
  unfold computed
  simp only [neg_dvd, Int.natAbs_neg, Int.tdiv_neg, fraction_neg_right, Int.cast_neg, div_neg,
    nearest_neg, ← neg_add]
  split <;> rfl

theorem computed_nonneg (hl : 0 ≤ l) (hr : 0 < r) : 0 ≤ computed l r := by
  have hwhole : (0 : ℚ) ≤ l.tdiv r := by exact_mod_cast Int.tdiv_nonneg hl hr.le
  exact (nearest_nonneg hwhole).trans (nearest_tdiv_le_computed hl hr)

theorem computed_mono (hleft : |l₁| ≤ 2 ^ 63) (hright : |l₂| ≤ 2 ^ 63) (hr : 0 < r) (h : l₁ ≤ l₂) :
    computed l₁ r ≤ computed l₂ r := by
  have hmirror : ∀ l, computed l r = -computed (-l) r := fun l => by rw [computed_neg_left, neg_neg]
  rcases le_total 0 l₁ with hsign₁ | hsign₁
  · exact computed_mono_of_nonneg hsign₁ (abs_le.mp hleft).2 hr h
  · rcases le_total 0 l₂ with hsign₂ | hsign₂
    · have hpos := computed_nonneg (neg_nonneg.mpr hsign₁) hr
      have hpos' := computed_nonneg hsign₂ hr
      rw [hmirror l₁]
      linarith
    · rw [hmirror l₁, hmirror l₂, neg_le_neg_iff]
      exact computed_mono_of_nonneg (neg_nonneg.mpr hsign₂) (by linarith [(abs_le.mp hright).1]) hr
        (neg_le_neg h)

end

/-- Of two words divided by one above zero, the larger has no smaller quotient; by one below zero, no
larger one. -/
theorem quotient_monotone (l₁ l₂ r : Word) (hr : r.toInt ≠ 0) (h : l₁.toInt ≤ l₂.toInt) :
    ∃ d₁ d₂ : ℚ, (quotient l₁.toInt r.toInt).toRat? = some d₁ ∧
      (quotient l₂.toInt r.toInt).toRat? = some d₂ ∧
      (0 < r.toInt → d₁ ≤ d₂) ∧ (r.toInt < 0 → d₂ ≤ d₁) := by
  have hleft := abs_toInt_le l₁
  have hright := abs_toInt_le l₂
  refine ⟨_, _, toRat?_quotient_eq_computed hleft (abs_toInt_le r) hr,
    toRat?_quotient_eq_computed hright (abs_toInt_le r) hr, fun hpos => ?_, fun hneg => ?_⟩
  · exact computed_mono hleft hright hpos h
  · have hmono := computed_mono hleft hright (neg_pos.mpr hneg) h
    rw [computed_neg_right, computed_neg_right] at hmono
    linarith

/-- The two sides of 2⁵³: the first dividend is converted without a change, the second is divided in
two parts. -/
theorem quotient_monotone_across_paths :
    (3 : ℤ) ≠ 0 ∧ (9007199254740992 : ℤ) ≤ 9007199254740994 ∧
      ∃ d₁ d₂ : ℚ, (quotient 9007199254740992 3).toRat? = some d₁ ∧
        (quotient 9007199254740994 3).toRat? = some d₂ ∧
        ((0 : ℤ) < 3 → d₁ ≤ d₂) ∧ ((3 : ℤ) < 0 → d₂ ≤ d₁) := by
  have hr : (3 : ℤ) ≠ 0 := by decide
  have h : (9007199254740992 : ℤ) ≤ 9007199254740994 := by decide
  exact ⟨hr, h, quotient_monotone ⟨9007199254740992, by decide, by decide⟩
    ⟨9007199254740994, by decide, by decide⟩ ⟨3, by decide, by decide⟩ hr h⟩

end Calculator
