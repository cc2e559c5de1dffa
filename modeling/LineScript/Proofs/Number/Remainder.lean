import LineScript.Proofs.Number.Truncation
import Mathlib.Data.Sign.Basic
/-!
# Remainders

The remainder of two decimals is that of their values over a common scale, and
those may take twice the digits there are. What is left takes no more than
sixteen all the same: only one of the two values was shifted, so the remainder
is bounded by a value of sixteen digits, as at most the dividend or as less
than the divisor. Nothing is cut, then, and a remainder is exact whatever the
scales are (`rem_exact`).
-/

namespace LineScript

namespace Decimal

variable {a b : Decimal} {value : ℤ} {scale : ℕ}

/-- **A value that keeps to the digits there are loses none of them.** -/
theorem exists_normalize_eq (small : value.natAbs < limit) (short : scale ≤ precision) :
    ∃ d, normalize value scale = some d ∧ d.toRat = value / 10 ^ scale := by
  induction scale generalizing value with
  | zero => exact ⟨⟨value, 0⟩, if_pos small, rfl⟩
  | succ scale ih =>
    rw [normalize]
    split
    · next dropped =>
      -- neither the value nor the scale is too large, so the digit that is dropped is a zero
      have zero : value.tmod 10 = 0 := by omega
      have tenfold : (value : ℚ) = value.tdiv 10 * 10 := by
        exact_mod_cast (Int.tdiv_mul_cancel (Int.dvd_of_tmod_eq_zero zero)).symm
      have smaller : (value.tdiv 10).natAbs < limit := by
        rw [Int.natAbs_tdiv]
        exact Nat.lt_of_le_of_lt (Nat.div_le_self _ _) small
      obtain ⟨d, normal, exact⟩ := ih smaller (Nat.le_of_succ_le short)
      refine ⟨d, normal, ?_⟩
      rw [exact, tenfold, pow_succ]
      field_simp
    · exact ⟨⟨value, scale + 1⟩, rfl, rfl⟩

/-- The remainder of the aligned values has no more digits than there are. -/
theorem natAbs_tmod_align_lt (ha : a.Canonical) (hb : b.Canonical) (nonzero : (align a b).2.1 ≠ 0) :
    ((align a b).1.tmod (align a b).2.1).natAbs < limit := by
  have positive := Int.natAbs_pos.2 nonzero
  rw [Int.natAbs_tmod]
  rcases Nat.le_total b.scale a.scale with dividend | divisor
  · have unshifted : (align a b).1 = a.value := by
      simp only [align, Nat.max_eq_left dividend, Nat.sub_self, pow_zero, mul_one]
    rw [unshifted]
    exact Nat.lt_of_le_of_lt (Nat.mod_le _ _) ha.small
  · have unshifted : (align a b).2.1 = b.value := by
      simp only [align, Nat.max_eq_right divisor, Nat.sub_self, pow_zero, mul_one]
    rw [unshifted] at positive ⊢
    exact Nat.lt_trans (Nat.mod_lt _ positive) hb.small

/-- A decimal is zero if its aligned value is. -/
theorem align_snd_eq_zero_iff (a b : Decimal) : (align a b).2.1 = 0 ↔ b.toRat = 0 := by
  have power : (10 : ℚ) ^ (align a b).2.2 ≠ 0 := by positivity
  rw [(toRat_align a b).2, div_eq_zero_iff, or_iff_left power, Int.cast_eq_zero]

/-- The remainder of the aligned values stands for what is left of the
dividend without the whole multiples of the divisor. -/
theorem sub_mul_wholePart (a b : Decimal) (nonzero : (align a b).2.1 ≠ 0) :
    a.toRat - b.toRat * wholePart (a.toRat / b.toRat) =
      ((align a b).1.tmod (align a b).2.1 : ℤ) / 10 ^ (align a b).2.2 := by
  obtain ⟨left, right⟩ := toRat_align a b
  have divisor : ((align a b).2.1 : ℚ) ≠ 0 := Int.cast_ne_zero.2 nonzero
  have quotient : a.toRat / b.toRat = ((align a b).1 : ℚ) / (align a b).2.1 := by
    rw [left, right]
    field_simp
  rw [quotient, wholePart_div, Int.tmod_def, left, right]
  push_cast
  ring

/-- The sign of a number does not depend on its scale. -/
theorem sign_div_pow (x : ℚ) (scale : ℕ) : SignType.sign (x / 10 ^ scale) = SignType.sign x := by
  have power : (0 : ℚ) < (10 ^ scale)⁻¹ := by positivity
  rw [div_eq_mul_inv, sign_mul, sign_pos power, mul_one]

/-- A remainder has the sign of the dividend, if it has one. -/
theorem sign_tmod (x y : ℤ) :
    x.tmod y = 0 ∨ SignType.sign ((x.tmod y : ℤ) : ℚ) = SignType.sign (x : ℚ) := by
  rcases eq_or_ne (x.tmod y) 0 with zero | nonzero
  · exact .inl zero
  refine .inr ?_
  rcases lt_trichotomy x 0 with below | rfl | above
  · have turned := Int.tmod_nonneg y (neg_nonneg.2 below.le)
    rw [Int.neg_tmod] at turned
    have less : x.tmod y < 0 := lt_of_le_of_ne (neg_nonneg.1 turned) nonzero
    rw [sign_neg (Int.cast_lt_zero.2 less), sign_neg (Int.cast_lt_zero.2 below)]
  · exact absurd (Int.zero_tmod y) nonzero
  · have more : 0 < x.tmod y := lt_of_le_of_ne (Int.tmod_nonneg y above.le) nonzero.symm
    rw [sign_pos (Int.cast_pos.2 more), sign_pos (Int.cast_pos.2 above)]

/-- **A remainder fits**, with all its digits. -/
theorem exists_rem_eq (ha : a.Canonical) (hb : b.Canonical) (nonzero : (align a b).2.1 ≠ 0) :
    ∃ r, a.rem b = some r ∧
      r.toRat = ((align a b).1.tmod (align a b).2.1 : ℤ) / 10 ^ (align a b).2.2 := by
  have short : (align a b).2.2 ≤ precision := Nat.max_le.2 ⟨ha.short, hb.short⟩
  obtain ⟨r, normal, exact⟩ := exists_normalize_eq (natAbs_tmod_align_lt ha hb nonzero) short
  exact ⟨r, (if_neg nonzero).trans normal, exact⟩

/-- A remainder is less than the divisor. -/
theorem abs_tmod_lt {x y : ℤ} (nonzero : y ≠ 0) : |x.tmod y| < |y| := by
  rw [Int.abs_eq_natAbs, Int.abs_eq_natAbs, Int.natAbs_tmod]
  exact_mod_cast Nat.mod_lt _ (Int.natAbs_pos.2 nonzero)

/-- **Remainders are exact.** There is none by zero alone. Any other is what is
left of the dividend without the whole multiples of the divisor, digit for
digit: it always fits, it is less than the divisor, and it is zero or has the
sign of the dividend. It is canonical, and machine words are wide enough. -/
theorem rem_exact (ha : a.Canonical) (hb : b.Canonical) :
    Words.rem a b = .ok (a.rem b) ∧
    (a.rem b = none ↔ b.toRat = 0) ∧
    (b.toRat ≠ 0 → ∃ r, a.rem b = some r ∧ r.Canonical ∧
      r.toRat = a.toRat - b.toRat * wholePart (a.toRat / b.toRat) ∧
      |r.toRat| < |b.toRat| ∧
      (r.toRat = 0 ∨ SignType.sign r.toRat = SignType.sign a.toRat)) := by
  refine ⟨Words.rem_eq ha hb, ?_, fun nonzero => ?_⟩
  · rw [← align_snd_eq_zero_iff a b]
    refine ⟨fun refused => ?_, fun zero => if_pos zero⟩
    by_contra nonzero
    obtain ⟨r, given, -⟩ := exists_rem_eq ha hb nonzero
    rw [given] at refused
    cases refused
  · have divisor := mt (align_snd_eq_zero_iff a b).1 nonzero
    obtain ⟨left, right⟩ := toRat_align a b
    obtain ⟨r, given, value⟩ := exists_rem_eq ha hb divisor
    refine ⟨r, given, canonical_rem given, ?_, ?_, ?_⟩
    · rw [value, sub_mul_wholePart a b divisor]
    · have power : (0 : ℚ) < 10 ^ (align a b).2.2 := by positivity
      rw [value, right, abs_div, abs_div]
      exact div_lt_div_of_pos_right (by exact_mod_cast abs_tmod_lt divisor) (abs_pos_of_pos power)
    · rw [value, left, sign_div_pow, sign_div_pow]
      rcases sign_tmod (align a b).1 (align a b).2.1 with zero | same
      · exact .inl (by rw [zero, Int.cast_zero, zero_div])
      · exact .inr same

/-- A dividend of sixteen whole digits and a divisor of sixteen fraction
digits have 32 digits when aligned, and a remainder of one. -/
theorem rem_exact_aligned :
    (⟨-9999999999999999, 0⟩ : Decimal).Canonical ∧ (⟨7, 16⟩ : Decimal).Canonical ∧
    ∃ r, rem ⟨-9999999999999999, 0⟩ ⟨7, 16⟩ = some r ∧ r.toRat = -5 / 10 ^ 16 ∧
      |r.toRat| < 7 / 10 ^ 16 ∧ SignType.sign r.toRat = -1 := by
  have whole : normalize (-9999999999999999) 0 = some ⟨-9999999999999999, 0⟩ := by decide +kernel
  have least : normalize 7 16 = some ⟨7, 16⟩ := by decide +kernel
  have dividend := canonical_of_normalize whole
  have divisor := canonical_of_normalize least
  have result : rem ⟨-9999999999999999, 0⟩ ⟨7, 16⟩ = some ⟨-5, 16⟩ := by decide +kernel
  obtain ⟨-, -, general⟩ := rem_exact dividend divisor
  obtain ⟨r, given, -, -, less, sign⟩ := general (by norm_num [toRat])
  obtain rfl := Option.some.inj (result.symm.trans given)
  refine ⟨dividend, divisor, _, result, by norm_num [toRat], ?_, ?_⟩
  · rwa [show |toRat ⟨7, 16⟩| = 7 / 10 ^ 16 by norm_num [toRat, abs_of_pos]] at less
  · rcases sign with zero | same
    · norm_num [toRat] at zero
    · rw [same]
      exact sign_neg (by norm_num [toRat])

end Decimal

end LineScript
