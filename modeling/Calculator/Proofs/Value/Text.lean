import Calculator.Proofs.Binary64.Decimal
import Calculator.Proofs.Quotient.SingleRounding
import Calculator.Value

/-!
# What the text of a value says

The text of a value says which value it is (`text_faithful`). For a finite double-precision number it is
the text of a decimal number, and rounding this number gives the value back, with its sign. A whole number
gives itself back because it is written exactly, and any other because its shortest text reads back.

The three kinds of texts are told apart by their characters. Only a finite number has a point, only what
is no number has a letter, and an integer has neither.
-/

namespace Calculator

open Binary64

/-! ## Reading a decimal number -/

namespace Decimal

theorem rankOf_toRat (d : Decimal) : rankOf d.toRat = rankOf d.magnitude := by
  rw [rankOf_eq_iff, toRat]
  split
  · rw [abs_neg]
    exact roundsTo_rankOf _
  · exact roundsTo_rankOf _

/-- Reading is rounding to nearest, with ties to even. -/
theorem nearestEven_of_toBinary64 {d : Decimal} {negative : Bool} {rank : Fin infinityRank}
    (h : d.toBinary64 = .finite negative rank) : NearestEven d.toRat (.finite negative rank) := by
  obtain ⟨rfl, hrank⟩ := eq_of_round_eq h
  refine nearestEven_of_rankOf (d.rankOf_toRat.trans hrank) ?_
  rw [← hrank, signed_rankOf d.magnitude_nonneg, toRat]

/-- A decimal number is so many units of its last place. -/
theorem exists_units (d : Decimal) :
    ∃ digits : ℕ, d.magnitude = digits / 10 ^ d.decimals.length := by
  refine ⟨Text.readNumeral d.whole * 10 ^ d.decimals.length + Text.readNumeral d.decimals, ?_⟩
  rw [magnitude]
  push_cast
  field_simp

theorem point_mem_text (d : Decimal) : '.' ∈ d.text := by
  simp [text]

end Decimal

/-! ## Writing a finite number -/

namespace Binary64

/-- What is written for a magnitude, in units of a decimal place. -/
def writtenUnits (rank : ℕ) : ℕ × ℕ :=
  if quanta rank % quantaPerOne = 0 then (1, unitsNearest rank 1) else shortest rank

theorem writtenUnits_of_whole {rank n : ℕ} (h : magnitude rank = n) :
    writtenUnits rank = (1, n * 10) := by
  rw [writtenUnits, if_pos (quanta_mod_eq_zero_iff.mpr ⟨n, h⟩),
    unitsNearest_of_whole (magnitude_eq_natCast_iff.mp h)]

/-- A whole magnitude is written in tenths, and any other by its shortest text. -/
theorem writtenUnits_cases (rank : ℕ) :
    (∃ n : ℕ, magnitude rank = n ∧ writtenUnits rank = (1, n * 10)) ∨
      (∀ n : ℕ, magnitude rank ≠ n) ∧ writtenUnits rank = shortest rank := by
  by_cases hwhole : ∃ n : ℕ, magnitude rank = n
  · obtain ⟨n, hn⟩ := hwhole
    exact Or.inl ⟨n, hn, writtenUnits_of_whole hn⟩
  · refine Or.inr ⟨not_exists.mp hwhole, ?_⟩
    rw [writtenUnits, if_neg (mt quanta_mod_eq_zero_iff.mp hwhole)]

theorem writtenUnits_ne_zero (rank : ℕ) : (writtenUnits rank).1 ≠ 0 := by
  rcases writtenUnits_cases rank with ⟨n, -, hunits⟩ | ⟨hfraction, hunits⟩
  · rw [hunits]
    exact one_ne_zero
  · rw [hunits]
    exact shortest_ne_zero hfraction

theorem readRank_writtenUnits (rank : ℕ) :
    readRank (writtenUnits rank).1 (writtenUnits rank).2 = rank := by
  rcases writtenUnits_cases rank with ⟨n, hwhole, hunits⟩ | ⟨-, hunits⟩
  · rw [hunits]
    refine readRank_of_eq ?_
    rw [magnitude_eq_natCast_iff.mp hwhole, unitsPerOne_eq, pow_one, Nat.mul_right_comm]
  · rw [hunits]
    exact readRank_shortest rank

/-- No fewer decimals read back than are written. -/
theorem writtenUnits_le {rank places digits : ℕ} (hplaces : places ≠ 0)
    (h : readRank places digits = rank) : (writtenUnits rank).1 ≤ places := by
  rcases writtenUnits_cases rank with ⟨n, -, hunits⟩ | ⟨-, hunits⟩
  · rw [hunits]
    exact Nat.one_le_iff_ne_zero.mpr hplaces
  · rw [hunits]
    exact shortest_le h

/-- The decimal number that is written for a finite number. -/
def written (negative : Bool) (rank : ℕ) : Decimal :=
  .ofUnits negative (writtenUnits rank).1 (writtenUnits rank).2

/-- Both ways to write a magnitude give the text of the decimal number. -/
theorem text_finite (negative : Bool) (rank : Fin infinityRank) :
    (Value.double (.finite negative rank)).text = (written negative rank).text := by
  have hsign : ∀ magnitudeText, textWith magnitudeText (.finite negative rank) =
      (if negative then ['-'] else []) ++ magnitudeText rank := by
    intro magnitudeText
    cases negative <;> rfl
  rw [written, Decimal.text_ofUnits (writtenUnits_ne_zero rank), writtenUnits, Value.text]
  by_cases hwhole : quanta rank % quantaPerOne = 0
  · rw [if_pos hwhole, isWhole, if_pos (decide_eq_true hwhole), fixedText, hsign]
  · rw [if_neg hwhole, isWhole, if_neg (by simpa using hwhole), shortestText, hsign]

theorem toBinary64_written (negative : Bool) (rank : Fin infinityRank) :
    (written negative rank).toBinary64 = .finite negative rank := by
  have hrank : rankOf (written negative rank).magnitude = rank := by
    rw [written, Decimal.magnitude_ofUnits (writtenUnits_ne_zero rank), rankOf_div_ten_pow,
      readRank_writtenUnits]
  have hlt : rankOf (written negative rank).magnitude < infinityRank := hrank.trans_lt rank.isLt
  have hsign : (written negative rank).negative = negative := rfl
  rw [Decimal.toBinary64, round_of_lt hlt]
  simp only [hsign, hrank]

/-- A whole number is written as it is. -/
theorem written_of_whole {negative : Bool} {rank : ℕ} {n : ℤ} (h : signed negative rank = n) :
    (written negative rank).toRat = n ∧ (written negative rank).decimals = ['0'] := by
  have hwhole : magnitude rank = n.natAbs := by
    rw [← abs_signed negative, h, ← Int.cast_abs, Int.abs_eq_natAbs, Int.cast_natCast]
  have hwritten : written negative rank = .ofUnits negative 1 (n.natAbs * 10) := by
    simp only [written, writtenUnits_of_whole hwhole]
  have hmagnitude : (written negative rank).magnitude = magnitude rank := by
    rw [hwritten, Decimal.magnitude_ofUnits one_ne_zero, pow_one, Nat.cast_mul, Nat.cast_ofNat,
      mul_div_cancel_right₀ _ (by norm_num), hwhole]
  refine ⟨?_, hwritten ▸ Decimal.decimals_ofUnits_tenths _⟩
  rw [Decimal.toRat, hmagnitude, ← h, signed]
  rfl

/-- What reads back has no fewer decimals than what is written. -/
theorem length_decimals_written_le {negative : Bool} {rank : Fin infinityRank} {d : Decimal}
    (h : d.toBinary64 = .finite negative rank) :
    (written negative rank).decimals.length ≤ d.decimals.length := by
  obtain ⟨digits, hdigits⟩ := d.exists_units
  have hread := (eq_of_round_eq h).2
  rw [hdigits, rankOf_div_ten_pow] at hread
  rw [written, Decimal.length_decimals_ofUnits (writtenUnits_ne_zero rank)]
  exact writtenUnits_le (List.length_pos_iff.mpr d.decimals_ne_nil).ne' hread

/-! ## Texts that differ -/

theorem text_nan : (Value.double .nan).text = "NaN".toList := rfl

theorem text_infinite (negative : Bool) :
    (Value.double (.infinite negative)).text = if negative then "-inf".toList else "inf".toList := rfl

theorem point_mem_text_iff {x : Binary64} :
    '.' ∈ (Value.double x).text ↔ ∃ negative rank, x = .finite negative rank := by
  cases x with
  | nan => simp [text_nan]
  | infinite negative => cases negative <;> simp [text_infinite]
  | finite negative rank =>
    rw [text_finite]
    exact iff_of_true (Decimal.point_mem_text _) ⟨negative, rank, rfl⟩

theorem text_injective {x y : Binary64} (h : (Value.double x).text = (Value.double y).text) :
    x = y := by
  by_cases hpoint : '.' ∈ (Value.double x).text
  · obtain ⟨s, a, rfl⟩ := point_mem_text_iff.mp hpoint
    obtain ⟨t, b, rfl⟩ := point_mem_text_iff.mp (h ▸ hpoint)
    rw [text_finite, text_finite] at h
    rw [← toBinary64_written s, Decimal.text_injective h, toBinary64_written]
  · have hpoint' : '.' ∉ (Value.double y).text := h ▸ hpoint
    cases x with
    | finite s a => exact absurd (point_mem_text_iff.mpr ⟨s, a, rfl⟩) hpoint
    | nan =>
      cases y with
      | nan => rfl
      | infinite t => cases t <;> simp [text_nan, text_infinite] at h
      | finite t b => exact absurd (point_mem_text_iff.mpr ⟨t, b, rfl⟩) hpoint'
    | infinite s =>
      cases y with
      | nan => cases s <;> simp [text_nan, text_infinite] at h
      | infinite t => cases s <;> cases t <;> simp [text_infinite] at h ⊢
      | finite t b => exact absurd (point_mem_text_iff.mpr ⟨t, b, rfl⟩) hpoint'

/-- No text of an integer is that of a double-precision number. -/
theorem text_ne_signedNumeral (x : Binary64) (n : ℤ) :
    Text.signedNumeral n ≠ (Value.double x).text := by
  intro h
  have hmem : ∀ c ∈ (Value.double x).text, c.isDigit = true ∨ c = '-' := by
    rw [← h]
    exact fun _ => Text.isDigit_or_eq_of_mem_signedNumeral
  cases x with
  | nan => exact absurd (hmem 'N' (by decide)) (by decide)
  | infinite negative => exact absurd (hmem 'i' (by cases negative <;> decide)) (by decide)
  | finite negative rank =>
    have hpoint := point_mem_text_iff.mpr ⟨negative, rank, rfl⟩
    exact absurd (hmem '.' hpoint) (by decide)

theorem toBits?_injective {x y : Binary64} (h : x.toBits? = y.toBits?) : x = y := by
  cases hbits : x.toBits? with
  | some bits => exact (ofBits_toBits hbits).symm.trans (ofBits_toBits (h.symm.trans hbits))
  | none =>
    have hnan : ∀ {z : Binary64}, z.toBits? = none → z = .nan := by
      intro z hz
      cases z with
      | nan => rfl
      | infinite negative => simp [toBits?] at hz
      | finite negative rank => simp [toBits?] at hz
    rw [hnan hbits, hnan (h.symm.trans hbits)]

end Binary64

/-- The text of a finite double-precision number is that of a decimal number: with digits on both sides
of the point and no exponent. Rounded to nearest, this number is the value again, with its sign, and none
with fewer decimals is. If the value is a whole number, so is what is written, and it ends in `.0`.

So the text says which value it is: values have the same text only if they are the same integer, or have
the same bits, or are both no number. -/
theorem text_faithful :
    (∀ (negative : Bool) (rank : Fin infinityRank), ∃ d : Decimal,
      (Value.double (.finite negative rank)).text = d.text ∧
      d.toBinary64 = .finite negative rank ∧ NearestEven d.toRat (.finite negative rank) ∧
      (∀ n : ℤ, signed negative rank = n → d.toRat = n ∧ d.decimals = ['0']) ∧
      ∀ d' : Decimal, d'.toBinary64 = .finite negative rank →
        d.decimals.length ≤ d'.decimals.length) ∧
    ∀ v w : Value, v.text = w.text ↔
      (∃ word, v = .integer word ∧ w = .integer word) ∨
        ∃ x y, v = .double x ∧ w = .double y ∧ x.toBits? = y.toBits? := by
  refine ⟨fun negative rank => ?_, fun v w => ⟨fun h => ?_, ?_⟩⟩
  · have hread := toBinary64_written negative rank
    exact ⟨written negative rank, text_finite negative rank, hread,
      Decimal.nearestEven_of_toBinary64 hread, fun _ => written_of_whole,
      fun _ => length_decimals_written_le⟩
  · cases v with
    | integer a =>
      cases w with
      | integer b => exact Or.inl ⟨a, rfl, by rw [Word.ext (Text.signedNumeral_injective h)]⟩
      | double y => exact absurd h (text_ne_signedNumeral y a.toInt)
    | double x =>
      cases w with
      | integer b => exact absurd h.symm (text_ne_signedNumeral x b.toInt)
      | double y => exact Or.inr ⟨x, y, rfl, rfl, by rw [text_injective h]⟩
  · rintro (⟨word, rfl, rfl⟩ | ⟨x, y, rfl, rfl, hbits⟩)
    · rfl
    · rw [toBits?_injective hbits]

/-- The negative zero is a whole number, and its text keeps the sign. -/
theorem text_faithful_minus_zero :
    signed true 0 = (0 : ℤ) ∧
      ∃ d : Decimal, (Value.double (zero true)).text = d.text ∧ d.toBinary64 = zero true ∧
        NearestEven d.toRat (zero true) ∧ d.toRat = (0 : ℤ) ∧ d.decimals = ['0'] := by
  have hwhole : signed true 0 = (0 : ℤ) := by simp
  obtain ⟨d, htext, hread, hnearest, hwritten, -⟩ := text_faithful.1 true ⟨0, by decide⟩
  exact ⟨hwhole, d, htext, hread, hnearest, hwritten 0 hwhole⟩

end Calculator
