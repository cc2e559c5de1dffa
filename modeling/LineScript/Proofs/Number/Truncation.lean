import LineScript.Proofs.Number.Quotient
import Mathlib.Data.Nat.Find
/-!
# Exact results, cut

A sum, a difference and a product of decimals have finitely many fraction
digits, so they are computed exactly before they are normalised. What is left
of them is the exact number, cut behind the last of sixteen fraction digits
that fits (`truncate`), whatever the decimals are (`arithmetic_truncates`).

The number of places that were computed does not show. Where it is less than
what fits, the digits behind them are zeros (`IsTruncation.of_whole`).
-/

namespace LineScript

namespace Decimal

variable {a b d : Decimal} {q : ℚ}

instance (q : ℚ) (k : ℕ) : Decidable (Fits q k) :=
  inferInstanceAs (Decidable (|wholePart (q * 10 ^ k)| < 10 ^ 16))

/-- How many of the first sixteen fraction digits of a number fit. -/
def places (q : ℚ) : ℕ := Nat.findGreatest (Fits q) 16

/-- A number with as many of its first sixteen fraction digits as fit, the
rest dropped; nothing, if it takes more than sixteen digits before its point. -/
def truncate (q : ℚ) : Option ℚ :=
  if 10 ^ 16 ≤ |q| then none else some (wholePart (q * 10 ^ places q) / 10 ^ places q)

/-! ## Cutting -/

/-- A number that is not too large fits without its fraction. -/
theorem fits_zero (small : |q| < 10 ^ 16) : Fits q 0 := by
  rw [fits_iff, pow_zero, mul_one]
  exact small

/-- There is a last digit that fits, of as many as are looked at. -/
theorem isGreatest_fits (small : |q| < 10 ^ 16) (many : ℕ) :
    IsGreatest {k | k ≤ many ∧ Fits q k} (Nat.findGreatest (Fits q) many) := by
  refine ⟨⟨Nat.findGreatest_le many, ?_⟩, ?_⟩
  · exact Nat.findGreatest_spec (Nat.zero_le many) (fits_zero small)
  · rintro k ⟨le, fits⟩
    exact Nat.le_findGreatest le fits

/-- What was cut to sixteen places is what truncating gives. -/
theorem IsTruncation.truncate_eq (h : IsTruncation q 16 d) (small : |q| < 10 ^ 16) :
    truncate q = some d.toRat := by
  obtain ⟨k, greatest, cut⟩ := h
  have same : k = places q := greatest.unique (isGreatest_fits small 16)
  rw [truncate, if_neg (not_le.2 small), cut, same]

/-- A whole number is its own whole part. -/
theorem wholePart_intCast (n : ℤ) : wholePart (n : ℚ) = n := by
  have quotient := wholePart_div n 1
  rwa [Int.cast_one, div_one, Int.tdiv_one] at quotient

/-- A number whose fraction digits are all among the first `few` is not changed
by cutting it behind a later one. -/
theorem wholePart_shift_of_le {n : ℤ} {few k : ℕ} (whole : q = n / 10 ^ few) (le : few ≤ k) :
    (wholePart (q * 10 ^ k) : ℚ) / 10 ^ k = q := by
  obtain ⟨more, rfl⟩ := Nat.exists_eq_add_of_le le
  have shifted : q * 10 ^ (few + more) = ((n * 10 ^ more : ℤ) : ℚ) := by
    rw [whole, pow_add]
    push_cast
    field_simp
  rw [shifted, wholePart_intCast, ← shifted]
  field_simp

/-- **More places are no use where nothing is left to cut.** -/
theorem IsTruncation.of_whole {few many : ℕ} {n : ℤ} (h : IsTruncation q few d) (le : few ≤ many)
    (whole : q = n / 10 ^ few) (small : |q| < 10 ^ 16) : IsTruncation q many d := by
  by_cases all : Fits q few
  · -- every place computed fits, so nothing was cut, and nothing is by any other place
    obtain ⟨k, ⟨⟨fewer, -⟩, greatest⟩, cut⟩ := h
    have last : k = few := le_antisymm fewer (greatest ⟨le_rfl, all⟩)
    have most := isGreatest_fits small many
    refine ⟨_, most, ?_⟩
    rw [cut, last, wholePart_shift_of_le whole le_rfl,
      wholePart_shift_of_le whole (most.2 ⟨le, all⟩)]
  · refine h.widen le fun k more _ fits => all ?_
    exact fits.mono more.le

/-! ## Normalising -/

/-- **A number with finitely many fraction digits is normalised by truncating it.** -/
theorem toRat_normalize (value : ℤ) (scale : ℕ) :
    (normalize value scale).map toRat = truncate (value / 10 ^ scale) := by
  generalize number : (value : ℚ) / 10 ^ scale = q
  have whole : wholePart (q * 10 ^ scale) = value := by
    have shifted : q * 10 ^ scale = value := by
      rw [← number]
      field_simp
    rw [shifted, wholePart_intCast]
  cases result : normalize value scale with
  | none =>
    have large := (normalize_eq_none_iff q scale).1 (by rw [whole, result])
    rw [truncate, if_pos large]
    rfl
  | some d =>
    have small : |q| < 10 ^ 16 := by
      by_contra large
      have refused := (normalize_eq_none_iff q scale).2 (not_lt.1 large)
      rw [whole, result] at refused
      cases refused
    have cut := isTruncation_normalize q scale (by rw [whole, result])
    have sixteen : IsTruncation q 16 d := by
      rcases Nat.le_total scale 16 with short | long
      · rw [Nat.min_eq_right short] at cut
        exact cut.of_whole short number.symm small
      · rwa [Nat.min_eq_left long] at cut
    rw [sixteen.truncate_eq small]
    rfl

/-! ## Sums and products -/

/-- Aligned values stand for the same numbers. -/
theorem toRat_align (a b : Decimal) :
    a.toRat = ((align a b).1 : ℚ) / 10 ^ (align a b).2.2 ∧
      b.toRat = ((align a b).2.1 : ℚ) / 10 ^ (align a b).2.2 := by
  have shifted (d : Decimal) {scale : ℕ} (le : d.scale ≤ scale) :
      d.toRat = ((d.value * 10 ^ (scale - d.scale) : ℤ) : ℚ) / 10 ^ scale := by
    obtain ⟨more, rfl⟩ := Nat.exists_eq_add_of_le le
    rw [toRat, Nat.add_sub_cancel_left, pow_add]
    push_cast
    field_simp
  exact ⟨shifted a (Nat.le_max_left _ _), shifted b (Nat.le_max_right _ _)⟩

/-- A product of values is one of numbers. -/
theorem toRat_mul (a b : Decimal) :
    a.toRat * b.toRat = ((a.value * b.value : ℤ) : ℚ) / 10 ^ (a.scale + b.scale) := by
  rw [toRat, toRat, pow_add]
  push_cast
  field_simp

/-- **Sums, differences and products are the exact ones, cut.** They do not fit
exactly when more than sixteen digits stand before the point; only fraction
digits behind the sixteenth digit, or the sixteenth fraction digit, are
dropped, toward zero. What is left is canonical, and so the one decimal that
stands for its number. -/
theorem arithmetic_truncates (a b : Decimal) :
    (a.add b).map toRat = truncate (a.toRat + b.toRat) ∧
    (a.sub b).map toRat = truncate (a.toRat - b.toRat) ∧
    (a.mul b).map toRat = truncate (a.toRat * b.toRat) ∧
    ∀ d, a.add b = some d ∨ a.sub b = some d ∨ a.mul b = some d → d.Canonical := by
  obtain ⟨left, right⟩ := toRat_align a b
  refine ⟨?_, ?_, ?_, ?_⟩
  · rw [left, right, ← add_div, ← Int.cast_add]
    exact toRat_normalize _ _
  · rw [left, right, ← sub_div, ← Int.cast_sub]
    exact toRat_normalize _ _
  · rw [toRat_mul]
    exact toRat_normalize _ _
  · rintro d (sum | difference | product)
    · exact canonical_of_normalize sum
    · exact canonical_of_normalize difference
    · exact canonical_of_normalize product

/-- Nine tenths more than the largest decimal are dropped, and one more does not fit. -/
theorem arithmetic_truncates_largest :
    Canonical ⟨9999999999999999, 0⟩ ∧
    truncate (toRat ⟨9999999999999999, 0⟩ + toRat ⟨9, 1⟩) = some 9999999999999999 ∧
    truncate (toRat ⟨9999999999999999, 0⟩ + toRat ⟨1, 0⟩) = none := by
  have kept : add ⟨9999999999999999, 0⟩ ⟨9, 1⟩ = some ⟨9999999999999999, 0⟩ := by decide +kernel
  have refused : add ⟨9999999999999999, 0⟩ ⟨1, 0⟩ = none := by decide +kernel
  obtain ⟨tenths, -, -, canonical⟩ := arithmetic_truncates ⟨9999999999999999, 0⟩ ⟨9, 1⟩
  obtain ⟨one, -⟩ := arithmetic_truncates ⟨9999999999999999, 0⟩ ⟨1, 0⟩
  refine ⟨canonical _ (.inl kept), ?_, ?_⟩
  · rw [← tenths, kept]
    norm_num [toRat]
  · rw [← one, refused]
    rfl

end Decimal

end LineScript
