import LineScript.Proofs.Number.Remainder
import Mathlib.Data.Int.ModEq
/-!
# Quotients of words

A quotient of words is truncated toward zero, and gives the dividend back with
its remainder (`division_reconstructs`). Only one quotient takes more than a
word: that of the least signed word by minus one, which is `2 ^ 31` and would
wrap to the least word again. Division gives up there as it does by zero, and
answers zero; so the dividend is lost (`division_gives_up`).
-/

namespace LineScript

namespace Arithmetic

/-- A quotient and a remainder, but for multiples of `2 ^ 32` that a word does
not hold. -/
structure IsDivision (a b q r : ℤ) : Prop where
  /-- They give the dividend back. -/
  reconstructs : q * b + r ≡ a [ZMOD 2 ^ 32]
  smaller : |r| < |b|
  sign : r = 0 ∨ r.sign = a.sign
  /-- The quotient is the exact one, without its fraction. -/
  truncated : q ≡ Decimal.wholePart ((a : ℚ) / b) [ZMOD 2 ^ 32]

/-- **What a truncated quotient leaves** is its remainder, even where it wraps. -/
theorem isDivision_tmod {a b q : ℤ} (nonzero : b ≠ 0) (wrapped : q ≡ a.tdiv b [ZMOD 2 ^ 32]) :
    IsDivision a b q (a.tmod b) where
  reconstructs := by
    have product : q * b + a.tmod b ≡ a.tdiv b * b + a.tmod b [ZMOD 2 ^ 32] :=
      (wrapped.mul_right b).add_right _
    rwa [Int.tdiv_mul_add_tmod] at product
  smaller := Decimal.abs_tmod_lt nonzero
  sign := by
    have sign := Int.sign_tmod a b
    split at sign
    · exact .inl (Int.sign_eq_zero_iff_zero.1 sign)
    · exact .inr sign
  truncated := by rwa [Decimal.wholePart_div]

/-! ## Signed words -/

section Signed

variable {a b : Int32}

/-- Only division by zero and that of the least word by minus one give up. -/
theorem undefinedQuotient_iff (nonzero : b ≠ 0) :
    undefinedQuotient a b = true ↔ a = Int32.minValue ∧ b = -1 := by
  simp [undefinedQuotient, nonzero]

/-- Everywhere else the quotient is that of the words. -/
theorem signed_div (nonzero : b ≠ 0) (defined : ¬ (a = Int32.minValue ∧ b = -1)) :
    signed (.binary .div) a b = some (a / b) ∧ signed (.binary .mod) a b = some (a % b) := by
  rw [← undefinedQuotient_iff nonzero] at defined
  simp [signed, signedBinary, defined]

/-- Which is right, with its remainder. -/
theorem isDivision_signed (nonzero : b ≠ 0) :
    IsDivision a.toInt b.toInt (a / b).toInt (a % b).toInt := by
  have divisor : b.toInt ≠ 0 := by
    intro zero
    exact nonzero (Int32.toInt_inj.1 zero)
  rw [Int32.toInt_mod, Int32.toInt_div]
  exact isDivision_tmod divisor Int.bmod_emod

/-- A quotient that is given up does not give the dividend back. -/
theorem not_isDivision_least :
    ¬ IsDivision Int32.minValue.toInt (-1 : Int32).toInt (0 : Int32).toInt (0 : Int32).toInt := by
  intro division
  exact absurd division.reconstructs (by decide)

end Signed

/-! ## Unsigned words -/

theorem isDivision_unsigned {a b : UInt32} (nonzero : b ≠ 0) :
    IsDivision a.toNat b.toNat (a / b).toNat (a % b).toNat := by
  have divisor : (b.toNat : ℤ) ≠ 0 := by
    intro zero
    exact nonzero (UInt32.toNat_inj.1 (by exact_mod_cast zero))
  rw [UInt32.toNat_div, UInt32.toNat_mod, Int.ofNat_tmod]
  exact isDivision_tmod divisor (by rw [Int.ofNat_tdiv])

/-- **Quotient and remainder give the dividend back**, of signed words `a` and
`b` and of unsigned ones `c` and `d`. The quotient is the exact one, truncated
toward zero and wrapped; the remainder is less than the divisor, and is zero or
has the sign of the dividend. There is one exception, which is answered by
zeros: the quotient of the least signed word by minus one. By zero, both are
zero. -/
theorem division_reconstructs (a b : Int32) (c d : UInt32) :
    (b ≠ 0 → ∃ q r, signed (.binary .div) a b = some q ∧ signed (.binary .mod) a b = some r ∧
      (IsDivision a.toInt b.toInt q.toInt r.toInt ↔ ¬ (a = Int32.minValue ∧ b = -1)) ∧
      (a = Int32.minValue ∧ b = -1 → q = 0 ∧ r = 0)) ∧
    (d ≠ 0 → ∃ q r, unsigned (.binary .div) c d = some q ∧ unsigned (.binary .mod) c d = some r ∧
      IsDivision c.toNat d.toNat q.toNat r.toNat) ∧
    (b = 0 → signed (.binary .div) a b = some 0 ∧ signed (.binary .mod) a b = some 0) ∧
    (d = 0 → unsigned (.binary .div) c d = some 0 ∧ unsigned (.binary .mod) c d = some 0) := by
  refine ⟨fun nonzero => ?_, fun nonzero => ?_, ?_, ?_⟩
  · by_cases least : a = Int32.minValue ∧ b = -1
    · obtain ⟨rfl, rfl⟩ := least
      exact ⟨0, 0, rfl, rfl, iff_of_false not_isDivision_least (by simp), fun _ => ⟨rfl, rfl⟩⟩
    · obtain ⟨quotient, remainder⟩ := signed_div nonzero least
      exact ⟨_, _, quotient, remainder, iff_of_true (isDivision_signed nonzero) least,
        fun same => absurd same least⟩
  · have defined : unsigned (.binary .div) c d = some (c / d) ∧
        unsigned (.binary .mod) c d = some (c % d) := by
      simp [unsigned, unsignedBinary, nonzero]
    exact ⟨_, _, defined.1, defined.2, isDivision_unsigned nonzero⟩
  · rintro rfl
    exact ⟨rfl, rfl⟩
  · rintro rfl
    exact ⟨rfl, rfl⟩

/-- The least word by three, and its bits as an unsigned word. -/
theorem division_reconstructs_least :
    (3 : Int32) ≠ 0 ∧ IsDivision (-2147483648) 3 (-715827882) (-2) ∧
    (3 : UInt32) ≠ 0 ∧ IsDivision 2147483648 3 715827882 2 := by
  have three : (3 : Int32) ≠ 0 := by decide
  have three' : (3 : UInt32) ≠ 0 := by decide
  obtain ⟨signs, words, -, -⟩ := division_reconstructs Int32.minValue 3 2147483648 3
  obtain ⟨q, r, quotient, remainder, division, -⟩ := signs three
  obtain rfl : -715827882 = q := Option.some.inj quotient
  obtain rfl : -2 = r := Option.some.inj remainder
  obtain ⟨q, r, quotient, remainder, division'⟩ := words three'
  obtain rfl : 715827882 = q := Option.some.inj quotient
  obtain rfl : 2 = r := Option.some.inj remainder
  exact ⟨three, division.2 (by decide), three', division'⟩

/-- **The least signed word by minus one** gives zeros, which lose it; the exact
quotient wraps to the least word, which would not. -/
theorem division_gives_up :
    signed (.binary .div) Int32.minValue (-1) = some 0 ∧
    signed (.binary .mod) Int32.minValue (-1) = some 0 ∧
    ¬ IsDivision (-2147483648) (-1) 0 0 ∧
    IsDivision (-2147483648) (-1) Int32.minValue.toInt 0 :=
  ⟨rfl, rfl, not_isDivision_least, isDivision_tmod (by decide) (by decide)⟩

end Arithmetic

end LineScript
