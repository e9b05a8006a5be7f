import Calculator.Proofs.Text.Decimal

/-!
# Decimals that read back

The units of the decimal place in the shortest text of a magnitude are rounded to that magnitude again
(`readRank_shortest`), and no fewer decimals are (`shortest_le`).

On one grid of decimals, everything follows from the two neighbours of the magnitude. Rounding is
monotone, so if some point of the grid is rounded to the magnitude, the neighbour on the same side of
it is as well. On the grid with 1074 decimals, the magnitude is a point itself.

Only a whole magnitude reads back without decimals, since whole numbers are rounded to whole numbers
(`exists_natCast_of_readRank_zero`).
-/

namespace Calculator.Binary64

/-! ## Reading units of a decimal place -/

theorem roundsTo_readRank (places digits : ℕ) :
    RoundsTo (digits / 10 ^ places) (readRank places digits) := by
  have hpos : 0 < unitsPerOne places := Nat.pow_pos (by decide)
  have hrounds := roundsTo_nearestRank (digits * quantaPerOne) hpos
  have hvalue : ((digits * quantaPerOne : ℕ) : ℚ) / unitsPerOne places * quantum =
      digits / 10 ^ places := by
    rw [unitsPerOne_eq, Nat.cast_mul, div_mul_eq_mul_div, mul_assoc, quantaPerOne_mul_quantum,
      mul_one, Nat.cast_pow, Nat.cast_ofNat]
  rwa [hvalue] at hrounds

theorem rankOf_div_ten_pow (places digits : ℕ) :
    rankOf (digits / 10 ^ places) = readRank places digits := by
  rw [rankOf_eq_iff, abs_of_nonneg (by positivity)]
  exact roundsTo_readRank places digits

theorem div_ten_pow_le {places digits : ℕ} {x : ℚ} :
    (digits : ℚ) / 10 ^ places ≤ x ↔ (digits : ℚ) ≤ x * 10 ^ places :=
  div_le_iff₀ (by positivity)

theorem le_div_ten_pow {places digits : ℕ} {x : ℚ} :
    x ≤ (digits : ℚ) / 10 ^ places ↔ x * 10 ^ places ≤ digits :=
  le_div_iff₀ (by positivity)

theorem readRank_mono (places : ℕ) {a b : ℕ} (h : a ≤ b) : readRank places a ≤ readRank places b := by
  refine (roundsTo_readRank places a).rank_le (roundsTo_readRank places b) ?_
  gcongr

/-- What is equal to a magnitude reads back. -/
theorem readRank_of_eq {rank places digits : ℕ}
    (h : digits * quantaPerOne = quanta rank * unitsPerOne places) : readRank places digits = rank := by
  rw [readRank, h]
  exact nearestRank_quanta rank (Nat.pow_pos (by decide))

/-! ## The neighbours on a grid -/

theorem quantaPerOne_pos : 0 < quantaPerOne := by decide +kernel

theorem magnitude_mul_ten_pow (rank places : ℕ) :
    magnitude rank * 10 ^ places = (quanta rank * unitsPerOne places : ℕ) / (quantaPerOne : ℕ) := by
  have hne : (quantaPerOne : ℚ) ≠ 0 := Nat.cast_ne_zero.mpr quantaPerOne_pos.ne'
  rw [eq_div_iff hne, magnitude_eq, unitsPerOne_eq, Nat.cast_mul, Nat.cast_pow, Nat.cast_ofNat]
  linear_combination (quanta rank : ℚ) * 10 ^ places * quantaPerOne_mul_quantum

namespace Grid

variable (grid : Grid) (rank : ℕ)

theorem below_le : (grid.below rank : ℚ) ≤ magnitude rank * 10 ^ grid.places := by
  have hpos : (0 : ℚ) < quantaPerOne := Nat.cast_pos.mpr quantaPerOne_pos
  have hle : grid.below rank * quantaPerOne ≤ quanta rank * unitsPerOne grid.places := by
    rw [below, Nat.mul_assoc]
    exact Nat.div_mul_le_self _ _
  rw [magnitude_mul_ten_pow, le_div_iff₀ hpos]
  exact_mod_cast hle

theorem lt_above : magnitude rank * 10 ^ grid.places < (grid.below rank + grid.step : ℕ) := by
  have hpos : (0 : ℚ) < quantaPerOne := Nat.cast_pos.mpr quantaPerOne_pos
  have hlt : quanta rank * unitsPerOne grid.places < (grid.below rank + grid.step) * quantaPerOne := by
    rw [below, Nat.add_mul, Nat.mul_assoc]
    exact Nat.lt_div_mul_add (Nat.mul_pos grid.step_pos quantaPerOne_pos)
  rw [magnitude_mul_ten_pow, div_lt_iff₀ hpos]
  exact_mod_cast hlt

theorem readRank_below_le : readRank grid.places (grid.below rank) ≤ rank := by
  refine (roundsTo_readRank _ _).rank_le (roundsTo_magnitude rank) ?_
  rw [div_ten_pow_le]
  exact grid.below_le rank

theorem le_readRank_above : rank ≤ readRank grid.places (grid.below rank + grid.step) := by
  refine (roundsTo_magnitude rank).rank_le (roundsTo_readRank _ _) ?_
  rw [le_div_ten_pow]
  exact (grid.lt_above rank).le

/-- The points behind the lower neighbour start with the upper one. -/
theorem above_le {digits : ℕ} (hpoint : grid.step ∣ digits) (h : grid.below rank < digits) :
    grid.below rank + grid.step ≤ digits := by
  obtain ⟨count, rfl⟩ := hpoint
  rw [Nat.mul_comm grid.step count, below] at h
  rw [Nat.mul_comm grid.step count, below, ← Nat.succ_mul]
  exact Nat.mul_le_mul_right _ (Nat.lt_of_mul_lt_mul_right h)

variable {grid rank}

theorem readRank_of_pointReadingBack? {digits : ℕ} (h : grid.pointReadingBack? rank = some digits) :
    readRank grid.places digits = rank := by
  unfold pointReadingBack? at h
  dsimp only at h
  split at h
  · next hbelow =>
    split at h
    · next habove =>
      obtain rfl := Option.some.inj h
      exact habove.1
    · obtain rfl := Option.some.inj h
      exact hbelow
  · split at h
    · next habove =>
      obtain rfl := Option.some.inj h
      exact habove
    · simp at h

theorem readRank_ne_of_pointReadingBack?_eq_none (h : grid.pointReadingBack? rank = none) :
    readRank grid.places (grid.below rank) ≠ rank ∧
      readRank grid.places (grid.below rank + grid.step) ≠ rank := by
  unfold pointReadingBack? at h
  dsimp only at h
  split at h
  · split at h <;> simp at h
  · next hbelow =>
    split at h
    · simp at h
    · next habove => exact ⟨hbelow, habove⟩

/-- If any point reads back, one of the two neighbours does. -/
theorem pointReadingBack?_ne_none {digits : ℕ} (hpoint : grid.step ∣ digits)
    (h : readRank grid.places digits = rank) : grid.pointReadingBack? rank ≠ none := by
  intro hnone
  obtain ⟨hbelow, habove⟩ := readRank_ne_of_pointReadingBack?_eq_none hnone
  rcases Nat.lt_or_ge (grid.below rank) digits with hlt | hge
  · have hle := readRank_mono grid.places (grid.above_le rank hpoint hlt)
    rw [h] at hle
    exact habove (le_antisymm hle (grid.le_readRank_above rank))
  · have hle := readRank_mono grid.places hge
    rw [h] at hle
    exact hbelow (le_antisymm (grid.readRank_below_le rank) hle)

end Grid

/-! ## The search for a grid -/

/-- On the grid with 1074 decimals, a magnitude is a point. -/
theorem readRank_below_last {grid : Grid} (hplaces : grid.places = 1074) (hstep : grid.step = 1)
    (rank : ℕ) : readRank grid.places (grid.below rank) = rank := by
  have hpoint : quantaPerOne ∣ quanta rank * unitsPerOne grid.places := by
    have hten : 2 ^ grid.places ∣ 10 ^ grid.places := pow_dvd_pow_of_dvd (by decide) _
    rw [quantaPerOne, Nat.one_shiftLeft, unitsPerOne_eq, ← hplaces]
    exact hten.mul_left _
  refine readRank_of_eq ?_
  rw [Grid.below, hstep, Nat.one_mul, Nat.mul_one]
  exact Nat.div_mul_cancel hpoint

theorem readRank_shortestFrom {rank index left : ℕ} (h : index + left = 1383) :
    readRank (shortestFrom rank index left).1 (shortestFrom rank index left).2 = rank := by
  induction left generalizing index with
  | zero =>
    obtain rfl : index = 1383 := h
    exact readRank_below_last rfl rfl rank
  | succ left ih =>
    rw [shortestFrom]
    cases hpoint : (Grid.ofIndex index).pointReadingBack? rank with
    | some digits =>
      rw [Option.map_some, Option.getD_some]
      exact Grid.readRank_of_pointReadingBack? hpoint
    | none =>
      rw [Option.map_none, Option.getD_none]
      exact ih (by omega)

theorem shortestFrom_le {rank index left other digits : ℕ} (hindex : index ≤ other)
    (hpoint : (Grid.ofIndex other).step ∣ digits)
    (h : readRank (Grid.ofIndex other).places digits = rank) :
    (shortestFrom rank index left).1 ≤ (Grid.ofIndex other).places := by
  induction left generalizing index with
  | zero => exact Nat.sub_le_sub_right hindex 309
  | succ left ih =>
    rw [shortestFrom]
    cases hback : (Grid.ofIndex index).pointReadingBack? rank with
    | some _ =>
      rw [Option.map_some, Option.getD_some]
      exact Nat.sub_le_sub_right hindex 309
    | none =>
      rw [Option.map_none, Option.getD_none]
      refine ih (Nat.lt_of_le_of_ne hindex ?_)
      rintro rfl
      exact Grid.pointReadingBack?_ne_none hpoint h hback

/-- The shortest text of a magnitude reads back. -/
theorem readRank_shortest (rank : ℕ) : readRank (shortest rank).1 (shortest rank).2 = rank :=
  readRank_shortestFrom (Nat.zero_add 1383)

/-- What has fewer decimals does not. -/
theorem shortest_le {rank places digits : ℕ} (h : readRank places digits = rank) :
    (shortest rank).1 ≤ places := by
  have hplaces : (Grid.ofIndex (309 + places)).places = places :=
    Nat.add_sub_cancel_left 309 places
  have hstep : (Grid.ofIndex (309 + places)).step = 1 := by
    show unitsPerOne (309 - (309 + places)) = 1
    rw [Nat.sub_add_eq, Nat.sub_self, Nat.zero_sub, unitsPerOne_eq, pow_zero]
  have hle : (shortestFrom rank 0 1383).1 ≤ (Grid.ofIndex (309 + places)).places :=
    shortestFrom_le (Nat.zero_le _) (hstep ▸ Nat.one_dvd digits) (hplaces.symm ▸ h)
  rwa [hplaces] at hle

/-! ## Whole numbers -/

theorem magnitude_eq_natCast_iff {rank n : ℕ} :
    magnitude rank = n ↔ quanta rank = n * quantaPerOne := by
  have hmul := magnitude_mul_ten_pow rank 0
  have hne : (quantaPerOne : ℚ) ≠ 0 := Nat.cast_ne_zero.mpr quantaPerOne_pos.ne'
  rw [pow_zero, mul_one, unitsPerOne_eq, pow_zero, Nat.mul_one] at hmul
  rw [hmul, div_eq_iff hne]
  exact_mod_cast Iff.rfl

theorem quanta_mod_eq_zero_iff {rank : ℕ} :
    quanta rank % quantaPerOne = 0 ↔ ∃ n : ℕ, magnitude rank = n := by
  simp only [magnitude_eq_natCast_iff]
  rw [← Nat.dvd_iff_mod_eq_zero]
  exact dvd_iff_exists_eq_mul_left

theorem unitsNearest_of_whole {rank n : ℕ} (h : quanta rank = n * quantaPerOne) :
    unitsNearest rank 1 = n * 10 := by
  rw [unitsNearest, h, unitsPerOne_eq, pow_one, Nat.mul_right_comm]
  exact roundHalfEven_mul_right _ quantaPerOne_pos

/-- A whole number is rounded to a whole number. -/
theorem exists_natCast_of_readRank_zero {rank digits : ℕ} (h : readRank 0 digits = rank) :
    ∃ n : ℕ, magnitude rank = n := by
  have hrounds := roundsTo_readRank 0 digits
  rw [h, pow_zero, div_one] at hrounds
  -- up to fifty-three binary digits it is not changed, and beyond them magnitudes are whole
  have hfixed : ∀ n ≤ 2 * stretch, ∃ rank, magnitude rank = (n : ℚ) := by
    intro n hn
    obtain ⟨rank, hrank⟩ := exists_magnitude hn 1074
    rw [mul_assoc, two_pow_mul_quantum_eq_one, mul_one] at hrank
    exact ⟨rank, hrank⟩
  rcases Nat.le_total digits (2 * stretch) with hle | hge
  · obtain ⟨other, hother⟩ := hfixed digits hle
    rw [← hother] at hrounds
    rw [hrounds.unique (roundsTo_magnitude other)]
    exact ⟨digits, hother⟩
  · obtain ⟨other, hother⟩ := hfixed (2 * stretch) le_rfl
    have hrank : other ≤ rank := by
      refine (roundsTo_magnitude other).rank_le hrounds ?_
      rw [hother]
      exact_mod_cast hge
    have hlow : (2 : ℚ) ^ 53 ≤ magnitude rank := by
      have hpow : ((2 * stretch : ℕ) : ℚ) = 2 ^ 53 := by norm_num [stretch]
      rw [← hpow, ← hother]
      exact magnitude_strictMono.monotone hrank
    by_contra hnone
    obtain ⟨-, j, hdigits, -⟩ := exists_significand_magnitude hlow (not_exists.mp hnone)
    omega

/-- The shortest text of what is not whole has decimals. -/
theorem shortest_ne_zero {rank : ℕ} (h : ∀ n : ℕ, magnitude rank ≠ n) : (shortest rank).1 ≠ 0 := by
  intro hzero
  have hread := readRank_shortest rank
  rw [hzero] at hread
  obtain ⟨n, hn⟩ := exists_natCast_of_readRank_zero hread
  exact h n hn

end Calculator.Binary64
