import LineScript.Proofs.Number.Expression
import Mathlib.Algebra.Order.Floor.Ring
import Mathlib.Data.Rat.Floor
import Mathlib.Tactic.FieldSimp
import Mathlib.Tactic.Positivity
/-!
# Quotients

A decimal stands for a rational number. Normalising one that was computed to
some number of fraction digits keeps as many of them as fit and drops the rest
toward zero (`isTruncation_normalize`), so a quotient that fits is the exact
one, cut (`div_truncates`).

Where it is cut depends on the divisor: the quotient is only computed to
`20 - b.scale` fraction digits. That is enough for sixteen digits if the
divisor has at most four fraction digits, or if the quotient is large. A small
quotient by a divisor with more of them loses digits that there is room for
(`div_drops_digits`).
-/

namespace LineScript

namespace Decimal

variable {a b d : Decimal} {q : ℚ}

/-- The number a decimal stands for. -/
def toRat (d : Decimal) : ℚ := d.value / 10 ^ d.scale

/-- A number without its fraction. -/
def wholePart (q : ℚ) : ℤ := if 0 ≤ q then ⌊q⌋ else ⌈q⌉

/-- Whether a number with its first `k` fraction digits keeps to the sixteen
digits there are. -/
def Fits (q : ℚ) (k : ℕ) : Prop := |wholePart (q * 10 ^ k)| < 10 ^ 16

/-- `d` is `q` with as many of its first `places` fraction digits as fit, the
rest dropped. -/
def IsTruncation (q : ℚ) (places : ℕ) (d : Decimal) : Prop :=
  ∃ k, IsGreatest {k | k ≤ places ∧ Fits q k} k ∧ d.toRat = wholePart (q * 10 ^ k) / 10 ^ k

/-! ## Whole parts -/

theorem wholePart_of_nonneg (nonneg : 0 ≤ q) : wholePart q = ⌊q⌋ := if_pos nonneg

/-- A sign is kept. -/
theorem wholePart_neg (q : ℚ) : wholePart (-q) = -wholePart q := by
  unfold wholePart
  rcases lt_trichotomy q 0 with neg | rfl | pos
  · rw [if_pos (by linarith), if_neg (by linarith), Int.floor_neg]
  · rfl
  · rw [if_neg (by linarith), if_pos (by linarith), Int.ceil_neg]

/-- The magnitude of a whole part is that of the number, rounded down. -/
theorem abs_wholePart (q : ℚ) : |wholePart q| = ⌊|q|⌋ := by
  rcases le_total 0 q with above | below
  · rw [abs_of_nonneg above, wholePart_of_nonneg above, abs_of_nonneg (Int.floor_nonneg.2 above)]
  · have opposite : 0 ≤ -q := by linarith
    have turned : wholePart q = -⌊-q⌋ := by
      rw [← wholePart_of_nonneg opposite, wholePart_neg, neg_neg]
    rw [abs_of_nonpos below, turned, abs_neg, abs_of_nonneg (Int.floor_nonneg.2 opposite)]

/-- One digit less. -/
theorem wholePart_tenth (q : ℚ) : (wholePart q).tdiv 10 = wholePart (q / 10) := by
  have tenth (p : ℚ) (above : 0 ≤ p) : (wholePart p).tdiv 10 = wholePart (p / 10) := by
    have less : 0 ≤ p / 10 := by positivity
    have floored := Int.floor_div_natCast p 10
    rw [wholePart_of_nonneg above, wholePart_of_nonneg less,
      Int.tdiv_eq_ediv_of_nonneg (Int.floor_nonneg.2 above)]
    exact_mod_cast floored.symm
  rcases le_total 0 q with above | below
  · exact tenth q above
  · have opposite := tenth (-q) (by linarith)
    rw [wholePart_neg, neg_div, wholePart_neg, Int.neg_tdiv] at opposite
    exact neg_injective opposite

/-- A quotient of integers, without its fraction. -/
theorem wholePart_div (n m : ℤ) : wholePart ((n : ℚ) / m) = n.tdiv m := by
  have unsigned (k l : ℕ) : wholePart (((k : ℤ) : ℚ) / (l : ℤ)) = (k : ℤ).tdiv l := by
    have above : (0 : ℚ) ≤ ((k : ℤ) : ℚ) / (l : ℤ) := by positivity
    rw [wholePart_of_nonneg above, Int.tdiv_eq_ediv_of_nonneg (Int.natCast_nonneg k),
      Int.cast_natCast l]
    exact Rat.floor_intCast_div_natCast k l
  obtain ⟨k, rfl | rfl⟩ := n.eq_nat_or_neg <;> obtain ⟨l, rfl | rfl⟩ := m.eq_nat_or_neg <;>
    simp only [Int.cast_neg, div_neg, neg_div, neg_neg, wholePart_neg, unsigned, Int.tdiv_neg,
      Int.neg_tdiv]

/-! ## The digits that fit -/

/-- It is the number that decides, not its digits. -/
theorem fits_iff (q : ℚ) (k : ℕ) : Fits q k ↔ |q| * 10 ^ k < 10 ^ 16 := by
  have power : (0 : ℚ) < 10 ^ k := by positivity
  have magnitude : |q * 10 ^ k| = |q| * 10 ^ k := by rw [abs_mul, abs_of_pos power]
  rw [Fits, abs_wholePart, magnitude, Int.floor_lt]
  norm_num

/-- Fewer digits fit, too. -/
theorem Fits.mono {j k : ℕ} (fits : Fits q k) (fewer : j ≤ k) : Fits q j := by
  rw [fits_iff] at fits ⊢
  have shift : (10 : ℚ) ^ j ≤ 10 ^ k := pow_le_pow_right₀ (by norm_num) fewer
  calc |q| * 10 ^ j ≤ |q| * 10 ^ k := mul_le_mul_of_nonneg_left shift (abs_nonneg q)
    _ < 10 ^ 16 := fits

/-- The same as it is tested. -/
theorem natAbs_lt_limit_iff (q : ℚ) (k : ℕ) :
    (wholePart (q * 10 ^ k)).natAbs < limit ↔ Fits q k := by
  have bound : limit = 10 ^ 16 := rfl
  rw [Fits, bound, Int.abs_eq_natAbs]
  omega

/-- The digits that do not fit can be dropped one by one. -/
theorem wholePart_shift (q : ℚ) (scale : ℕ) :
    (wholePart (q * 10 ^ (scale + 1))).tdiv 10 = wholePart (q * 10 ^ scale) := by
  rw [wholePart_tenth, pow_succ, ← mul_assoc, mul_div_cancel_right₀ _ (by norm_num)]

/-- A truncation is one number. -/
theorem IsTruncation.unique {d' : Decimal} {places : ℕ} (h : IsTruncation q places d)
    (h' : IsTruncation q places d') : d.toRat = d'.toRat := by
  obtain ⟨k, greatest, cut⟩ := h
  obtain ⟨k', greatest', cut'⟩ := h'
  rw [cut, cut', greatest.unique greatest']

/-- More places are no use if no more digits fit. -/
theorem IsTruncation.widen {few many : ℕ} (h : IsTruncation q few d) (le : few ≤ many)
    (full : ∀ k, few < k → k ≤ many → ¬ Fits q k) : IsTruncation q many d := by
  obtain ⟨k, ⟨⟨fewer, fits⟩, greatest⟩, cut⟩ := h
  refine ⟨k, ⟨⟨fewer.trans le, fits⟩, fun j ⟨places, fits⟩ => ?_⟩, cut⟩
  rcases Nat.lt_or_ge few j with more | fewer
  · exact absurd fits (full j more places)
  · exact greatest ⟨fewer, fits⟩

/-! ## Normalising -/

/-- **A number is refused if it takes too many digits before the point.** -/
theorem normalize_eq_none_iff (q : ℚ) (scale : ℕ) :
    normalize (wholePart (q * 10 ^ scale)) scale = none ↔ 10 ^ 16 ≤ |q| := by
  have whole : ¬ Fits q 0 ↔ 10 ^ 16 ≤ |q| := by rw [fits_iff, pow_zero, mul_one, not_lt]
  rw [← whole]
  induction scale with
  | zero =>
    rw [normalize, ← natAbs_lt_limit_iff]
    split <;> simp only [*, reduceCtorEq, not_true_eq_false, not_false_eq_true]
  | succ scale ih =>
    rw [normalize, wholePart_shift]
    split
    · exact ih
    · next kept =>
      have fits : Fits q (scale + 1) := (natAbs_lt_limit_iff _ _).1 (by omega)
      simp [fits.mono (Nat.zero_le _)]

/-- **What is not refused is the number, cut** behind the last digit that fits. -/
theorem isTruncation_normalize (q : ℚ) (scale : ℕ)
    (h : normalize (wholePart (q * 10 ^ scale)) scale = some d) :
    IsTruncation q (min 16 scale) d := by
  induction scale with
  | zero =>
    rw [normalize] at h
    split at h
    · next small =>
      cases h
      have fits := (natAbs_lt_limit_iff q 0).1 small
      refine ⟨0, ⟨⟨Nat.zero_le _, fits⟩, fun k fewer => ?_⟩, rfl⟩
      exact le_trans fewer.1 (Nat.min_le_right _ _)
    · cases h
  | succ scale ih =>
    rw [normalize] at h
    split at h
    · next dropped =>
      rw [wholePart_shift] at h
      have cut := ih h
      by_cases kept : scale + 1 ≤ 16 ∧ Fits q (scale + 1)
      · -- only a zero is dropped, and the number stays what it is
        obtain ⟨k, ⟨⟨fewer, -⟩, greatest⟩, value⟩ := cut
        have zero : (wholePart (q * 10 ^ (scale + 1))).tmod 10 = 0 := by
          have fits := (natAbs_lt_limit_iff _ _).2 kept.2
          rw [precision] at dropped
          omega
        have tenfold : wholePart (q * 10 ^ (scale + 1)) = wholePart (q * 10 ^ scale) * 10 := by
          rw [← wholePart_shift q scale]
          exact (Int.tdiv_mul_cancel (Int.dvd_of_tmod_eq_zero zero)).symm
        have last : k = scale := by
          have most := greatest ⟨(by omega : scale ≤ _), kept.2.mono (Nat.le_succ scale)⟩
          omega
        refine ⟨scale + 1, ⟨⟨by omega, kept.2⟩, fun j places => ?_⟩, ?_⟩
        · exact places.1.trans (Nat.min_le_right _ _)
        · rw [value, last, tenfold, pow_succ]
          push_cast
          field_simp
      · refine cut.widen (by omega) (fun k more places fits => kept ⟨by omega, ?_⟩)
        rwa [show scale + 1 = k by omega]
    · next kept =>
      cases h
      have fits : Fits q (scale + 1) := (natAbs_lt_limit_iff _ _).1 (by omega)
      have places : min 16 (scale + 1) = scale + 1 := by
        rw [precision] at kept
        omega
      refine ⟨scale + 1, ⟨⟨places.ge, fits⟩, fun k fewer => ?_⟩, rfl⟩
      exact le_trans fewer.1 places.le

/-! ## Dividing -/

/-- A decimal is zero if its value is. -/
theorem toRat_eq_zero_iff (d : Decimal) : d.toRat = 0 ↔ d.value = 0 := by
  have power : (10 : ℚ) ^ d.scale ≠ 0 := by positivity
  rw [toRat, div_eq_zero_iff, or_iff_left power, Int.cast_eq_zero]

/-- **A quotient is computed exactly, to `20 - b.scale` fraction digits**, and normalised. -/
theorem div_eq (nonzero : b.value ≠ 0) : a.div b =
    normalize (wholePart (a.toRat / b.toRat * 10 ^ (20 - b.scale))) (20 - b.scale) := by
  have divisor : (b.value : ℚ) ≠ 0 := Int.cast_ne_zero.2 nonzero
  have fraction : a.toRat / b.toRat * 10 ^ (20 - b.scale) =
      ((a.value * 10 ^ (b.scale + (20 - b.scale)) : ℤ) : ℚ) / (b.value * 10 ^ a.scale : ℤ) := by
    rw [toRat, toRat, pow_add]
    push_cast
    field_simp
  rw [div, if_neg nonzero, fraction, wholePart_div]

/-- A large quotient has its sixteen digits before it is normalised. -/
theorem IsTruncation.sixteen {scale : ℕ} (h : IsTruncation q (min 16 (20 - scale)) d)
    (short : scale ≤ 16) (enough : scale ≤ 4 ∨ 10 ^ (scale - 5) ≤ |q|) : IsTruncation q 16 d := by
  refine h.widen (Nat.min_le_left _ _) fun k more places fits => ?_
  rcases enough with few | large
  · omega
  · -- sixteen digits are taken by the places computed and those before the point
    have one := (fits_iff q _).1 (fits.mono (by omega : 21 - scale ≤ k))
    have digits : (10 : ℚ) ^ 16 = 10 ^ (scale - 5) * 10 ^ (21 - scale) := by
      rw [← pow_add]
      congr 1
      omega
    have reached := mul_le_mul_of_nonneg_right large (by positivity : (0 : ℚ) ≤ 10 ^ (21 - scale))
    linarith

open Expression in
/-- **A quotient that fits is the exact one, cut** behind the last fraction
digit that fits, of the `20 - b.scale` that are computed; these are all the
sixteen that can be kept if the divisor has at most four fraction digits or
the quotient is large. It does not fit if it takes more than sixteen digits
before the point, and there is none by zero. Machine words are wide enough. -/
theorem div_truncates {e e' : Expression} (left : e.value? = some a) (right : e'.value? = some b) :
    Words.div a b = .ok (a.div b) ∧
    (b.toRat = 0 → a.div b = none) ∧
    (b.toRat ≠ 0 →
      (a.div b = none ↔ 10 ^ 16 ≤ |a.toRat / b.toRat|) ∧
      ∀ d, a.div b = some d →
        IsTruncation (a.toRat / b.toRat) (min 16 (20 - b.scale)) d ∧
        (b.scale ≤ 4 ∨ 10 ^ (b.scale - 5) ≤ |a.toRat / b.toRat| →
          IsTruncation (a.toRat / b.toRat) 16 d)) := by
  have canonical := canonical_value right
  rw [ne_eq, toRat_eq_zero_iff]
  refine ⟨Words.div_eq (canonical_value left) canonical, fun zero => if_pos zero, fun nonzero => ?_⟩
  rw [div_eq nonzero]
  refine ⟨normalize_eq_none_iff _ _, fun d given => ?_⟩
  have cut := isTruncation_normalize _ _ given
  exact ⟨cut, cut.sixteen canonical.short⟩

/-- Two thirds, cut and not rounded. -/
theorem div_truncates_thirds : IsTruncation (2 / 3) 16 ⟨6666666666666666, 16⟩ := by
  have two : (Expression.parse "2".toList).value? = some ⟨2, 0⟩ := by decide +kernel
  have three : (Expression.ofInt 3).value? = some ⟨3, 0⟩ := by decide +kernel
  have quotient : div ⟨2, 0⟩ ⟨3, 0⟩ = some ⟨6666666666666666, 16⟩ := by decide +kernel
  have nonzero : toRat ⟨3, 0⟩ ≠ 0 := by norm_num [toRat]
  have value : (2 / 3 : ℚ) = toRat ⟨2, 0⟩ / toRat ⟨3, 0⟩ := by norm_num [toRat]
  obtain ⟨-, -, general⟩ := div_truncates two three
  obtain ⟨-, cut⟩ := (general nonzero).2 _ quotient
  rw [value]
  exact cut (.inl (Nat.zero_le 4))

/-- One divided by a divisor of sixteen fraction digits is cut behind the
fourth, though fifteen of them fit. -/
theorem div_drops_digits :
    parse "1".toList = some ⟨1, 0⟩ ∧
    parse "0.3333333333333334".toList = some ⟨3333333333333334, 16⟩ ∧
    div ⟨1, 0⟩ ⟨3333333333333334, 16⟩ = some ⟨29999, 4⟩ ∧
    IsTruncation (toRat ⟨1, 0⟩ / toRat ⟨3333333333333334, 16⟩) 16 ⟨2999999999999999, 15⟩ ∧
    ¬ IsTruncation (toRat ⟨1, 0⟩ / toRat ⟨3333333333333334, 16⟩) 16 ⟨29999, 4⟩ := by
  have quotient : toRat ⟨1, 0⟩ / toRat ⟨3333333333333334, 16⟩ =
      ((10 ^ 16 : ℤ) : ℚ) / (3333333333333334 : ℤ) := by norm_num [toRat]
  have full : IsTruncation (toRat ⟨1, 0⟩ / toRat ⟨3333333333333334, 16⟩) 16
      ⟨2999999999999999, 15⟩ := by
    rw [quotient]
    refine ⟨15, ⟨⟨by decide, ?_⟩, fun k places => ?_⟩, ?_⟩
    · rw [fits_iff]
      norm_num [abs_of_pos]
    · have sixteen : ¬ Fits (((10 ^ 16 : ℤ) : ℚ) / (3333333333333334 : ℤ)) 16 := by
        rw [fits_iff]
        norm_num [abs_of_pos]
      by_contra more
      have all : k = 16 := by
        have := places.1
        omega
      exact sixteen (all ▸ places.2)
    · have shifted : ((10 ^ 16 : ℤ) : ℚ) / (3333333333333334 : ℤ) * 10 ^ 15 =
          ((10 ^ 31 : ℤ) : ℚ) / (3333333333333334 : ℤ) := by norm_num
      have whole : (10 ^ 31 : ℤ).tdiv 3333333333333334 = 2999999999999999 := by decide +kernel
      rw [shifted, wholePart_div, whole]
      norm_num [toRat]
  refine ⟨by decide +kernel, by decide +kernel, by decide +kernel, full, fun short => ?_⟩
  have same := full.unique short
  norm_num [toRat] at same

end Decimal

end LineScript
