import LineScript.Proofs.Number.Truncation
/-!
# Relations and flags

A relation of two values is read off four flags. The signed conditions need
two things of the flags: the zero flag tells whether the values are equal, and
the negative and the overflow flag differ where the first is less
(`signed_iff`). The unsigned conditions need the carry flag instead, which
tells whether the second is at most the first (`unsigned_iff`).

A subtraction of words sets the flags so for both readings, even where the
difference takes more than a word (`overflow_subtract`), and an ordering of
decimals sets them so for signed conditions. A decimal that did not fit is in
no order with any other: it is neither equal nor at least, and so counts as
different and as less (`relations_decided`).
-/

namespace LineScript

namespace Operator.Comparison

variable {α : Type} [LinearOrder α]

/-- Whether two numbers are in a relation. -/
def Holds : Comparison → α → α → Prop
  | eq, x, y => x = y
  | ne, x, y => x ≠ y
  | le, x, y => x ≤ y
  | ge, x, y => y ≤ x
  | lt, x, y => x < y
  | gt, x, y => y < x

end Operator.Comparison

namespace Flags

open Operator (Comparison)

variable {α : Type} [LinearOrder α] {x y : α} {f : Flags}

/-! ## Conditions -/

/-- **What a signed condition reads**: where the values are equal, and where the
first is less. -/
theorem signed_iff (equal : f.zero = true ↔ x = y) (less : f.negative ≠ f.overflow ↔ x < y)
    (op : Comparison) : f.signed (.comparison op) = true ↔ op.Holds x y := by
  cases op with
  | eq => exact equal
  | ne => simp [signed, Comparison.Holds, ← equal]
  | lt => simpa [signed, Comparison.Holds] using less
  | ge => simp [signed, Comparison.Holds, ← not_lt, ← less]
  | le => simp [signed, Comparison.Holds, le_iff_eq_or_lt, ← equal, ← less]
  | gt =>
    have more : y < x ↔ ¬ x = y ∧ ¬ x < y := by
      rw [← not_or, ← le_iff_eq_or_lt, not_le]
    simp [signed, Comparison.Holds, more, ← equal, ← less]

/-- **What an unsigned condition reads**: where the values are equal, and where
the second is at most the first. -/
theorem unsigned_iff (equal : f.zero = true ↔ x = y) (carry : f.carry = true ↔ y ≤ x)
    (op : Comparison) : f.unsigned (.comparison op) = true ↔ op.Holds x y := by
  cases op with
  | eq => exact equal
  | ne => simp [unsigned, Comparison.Holds, ← equal]
  | lt => simp [unsigned, Comparison.Holds, ← not_le, ← carry]
  | ge => exact carry
  | le =>
    have atMost : x ≤ y ↔ ¬ y ≤ x ∨ x = y := by
      rw [not_le, le_iff_lt_or_eq]
    simp [unsigned, Comparison.Holds, atMost, ← carry, ← equal]
  | gt =>
    have more : y < x ↔ y ≤ x ∧ ¬ x = y := by
      rw [lt_iff_le_and_ne, ne_comm]
    simp [unsigned, Comparison.Holds, more, ← carry, ← equal]

/-- No other operator is a condition. -/
theorem not_condition {op : Operator} (h : op.isComparison = false) (f : Flags) :
    f.signed op = false ∧ f.unsigned op = false := by
  cases op with
  | comparison => cases h
  | binary | function => exact ⟨rfl, rfl⟩

/-! ## Subtraction -/

section Subtraction

variable (a b : UInt32)

theorem zero_subtract : (subtract a b).zero = true ↔ a = b := by
  have low := a.toNat_lt
  have high := b.toNat_lt
  rw [subtract, decide_eq_true_eq, ← UInt32.toNat_inj, ← UInt32.toNat_inj, UInt32.toNat_sub]
  simp only [UInt32.toNat_zero]
  omega

theorem carry_subtract : (subtract a b).carry = true ↔ b.toNat ≤ a.toNat := by
  rw [subtract, decide_eq_true_eq, UInt32.le_iff_toNat_le]

theorem toInt_bounds : -2 ^ 31 ≤ a.toInt32.toInt ∧ a.toInt32.toInt < 2 ^ 31 :=
  ⟨a.toInt32.le_toInt, a.toInt32.toInt_lt⟩

/-- The difference of two words as signed ones, which wraps at most once. -/
theorem toInt_sub_cases :
    let x := a.toInt32.toInt
    let y := b.toInt32.toInt
    ((a - b).toInt32.toInt = x - y ∧ -2 ^ 31 ≤ x - y ∧ x - y < 2 ^ 31) ∨
    ((a - b).toInt32.toInt = x - y + 2 ^ 32 ∧ x - y < -2 ^ 31) ∨
    ((a - b).toInt32.toInt = x - y - 2 ^ 32 ∧ 2 ^ 31 ≤ x - y) := by
  have left := toInt_bounds a
  have right := toInt_bounds b
  rw [UInt32.toInt32_sub, Int32.toInt_sub, Int.bmod_def]
  dsimp only
  split <;> omega

/-- **The overflow flag** tells whether the signed difference takes more than a word. -/
theorem overflow_subtract : (subtract a b).overflow = true ↔
    a.toInt32.toInt - b.toInt32.toInt < -2 ^ 31 ∨ 2 ^ 31 ≤ a.toInt32.toInt - b.toInt32.toInt := by
  have left := toInt_bounds a
  have right := toInt_bounds b
  have difference := toInt_sub_cases a b
  simp only [subtract, Bool.and_eq_true, bne_iff_ne, ne_eq, decide_eq_decide,
    Int32.lt_iff_toInt_lt, Int32.toInt_zero]
  omega

/-- The negative flag and the overflow flag differ where the first word is less
than the second as a signed one. -/
theorem negative_subtract : (subtract a b).negative ≠ (subtract a b).overflow ↔
    a.toInt32.toInt < b.toInt32.toInt := by
  have left := toInt_bounds a
  have right := toInt_bounds b
  have difference := toInt_sub_cases a b
  have negative : (subtract a b).negative = true ↔ (a - b).toInt32.toInt < 0 := by
    simp [subtract, Int32.lt_iff_toInt_lt]
  rw [ne_eq, Bool.eq_iff_iff, negative, overflow_subtract]
  omega

end Subtraction

/-! ## Orderings -/

variable {ordering : Ordering}

theorem zero_ofOrdering : (ofOrdering (some ordering)).zero = true ↔ ordering = .eq := by
  cases ordering <;> simp [ofOrdering]

theorem negative_ofOrdering :
    (ofOrdering (some ordering)).negative ≠ (ofOrdering (some ordering)).overflow ↔
      ordering = .lt := by
  cases ordering <;> simp [ofOrdering]

/-- **What is unordered** counts as different and as less, and as nothing else. -/
theorem signed_unordered (op : Comparison) :
    (ofOrdering none).signed (.comparison op) = true ↔ op ∈ [.ne, .lt, .le] := by
  cases op <;> simp [ofOrdering, signed]

end Flags

/-! ## Decimals -/

namespace Decimal

variable (a b : Decimal)

/-- A decimal comes before another one where its number is less. -/
theorem compare_eq_lt_iff : a.compare b = .lt ↔ a.toRat < b.toRat := by
  obtain ⟨left, right⟩ := toRat_align a b
  have power : (0 : ℚ) < 10 ^ (align a b).2.2 := by positivity
  have aligned : a.compare b = .lt ↔ (align a b).1 < (align a b).2.1 := Int.compare_eq_lt
  rw [aligned, left, right, div_lt_div_iff_of_pos_right power, Int.cast_lt]

/-- And two compare as equal where their numbers are. -/
theorem compare_eq_eq_iff : a.compare b = .eq ↔ a.toRat = b.toRat := by
  obtain ⟨left, right⟩ := toRat_align a b
  have power : (10 : ℚ) ^ (align a b).2.2 ≠ 0 := by positivity
  have aligned : a.compare b = .eq ↔ (align a b).1 = (align a b).2.1 := Int.compare_eq_eq
  rw [aligned, left, right, div_left_inj' power, Int.cast_inj]

end Decimal

/-! ## Relations -/

namespace Arithmetic

open Flags (zero_subtract carry_subtract negative_subtract zero_ofOrdering negative_ofOrdering)
open Operator (Comparison)

theorem compareSigned_iff (op : Comparison) (a b : Int32) :
    compareSigned (.comparison op) a b = true ↔ op.Holds a.toInt b.toInt := by
  have pattern : a.toUInt32 = b.toUInt32 ↔ a = b :=
    ⟨congrArg UInt32.toInt32, congrArg Int32.toUInt32⟩
  have equal : (Flags.subtract a.toUInt32 b.toUInt32).zero = true ↔ a.toInt = b.toInt := by
    rw [zero_subtract, pattern, Int32.toInt_inj]
  exact Flags.signed_iff equal (negative_subtract _ _) op

theorem compareUnsigned_iff (op : Comparison) (a b : UInt32) :
    compareUnsigned (.comparison op) a b = true ↔ op.Holds a.toNat b.toNat := by
  have equal := zero_subtract a b
  rw [← UInt32.toNat_inj] at equal
  exact Flags.unsigned_iff equal (carry_subtract a b) op

theorem compareDecimal_iff (op : Comparison) (a b : Decimal) :
    compareDecimal (.comparison op) (some a) (some b) = true ↔ op.Holds a.toRat b.toRat :=
  Flags.signed_iff (zero_ofOrdering.trans (a.compare_eq_eq_iff b))
    (negative_ofOrdering.trans (a.compare_eq_lt_iff b)) op

theorem compareDecimal_saturated (op : Comparison) {a b : Option Decimal}
    (unordered : a = none ∨ b = none) :
    compareDecimal (.comparison op) a b = true ↔ op ∈ [.ne, .lt, .le] := by
  rcases unordered with rfl | rfl
  · exact Flags.signed_unordered op
  · cases a <;> exact Flags.signed_unordered op

/-- Texts are only told apart. -/
theorem compareText_iff (a b : Text) :
    (compareText (.comparison .eq) a b = true ↔ a = b) ∧
      (compareText (.comparison .ne) a b = true ↔ a ≠ b) := by
  simp [compareText, Flags.ofEquality, Flags.signed]

/-- **Relations are those of the numbers**: of words as signed and as unsigned
numbers, even where their difference takes more than a word, and of decimals as
rational numbers, which machine words are wide enough to compare. A decimal that
did not fit is different from any other and counts as less. Texts are only
compared for equality. An operator that is no comparison never holds. -/
theorem relations_decided :
    (∀ (op : Comparison) (a b : Int32),
      compareSigned (.comparison op) a b = true ↔ op.Holds a.toInt b.toInt) ∧
    (∀ (op : Comparison) (a b : UInt32),
      compareUnsigned (.comparison op) a b = true ↔ op.Holds a.toNat b.toNat) ∧
    (∀ (op : Comparison) (a b : Decimal),
      compareDecimal (.comparison op) (some a) (some b) = true ↔ op.Holds a.toRat b.toRat) ∧
    (∀ a b : Decimal, a.Canonical → b.Canonical →
      Decimal.Words.compare a b = .ok (a.compare b)) ∧
    (∀ (op : Comparison) (a b : Option Decimal), a = none ∨ b = none →
      (compareDecimal (.comparison op) a b = true ↔ op ∈ [.ne, .lt, .le])) ∧
    (∀ a b : Text, (compareText (.comparison .eq) a b = true ↔ a = b) ∧
      (compareText (.comparison .ne) a b = true ↔ a ≠ b)) ∧
    ∀ op : Operator, op.isComparison = false →
      (∀ a b, compareSigned op a b = false) ∧ (∀ a b, compareUnsigned op a b = false) ∧
      (∀ a b, compareDecimal op a b = false) ∧ (∀ a b, compareFloat op a b = false) ∧
      ∀ a b, compareText op a b = false := by
  refine ⟨compareSigned_iff, compareUnsigned_iff, compareDecimal_iff, ?_, ?_, compareText_iff, ?_⟩
  · intro a b left right
    exact Decimal.Words.compare_eq left right
  · intro op a b unordered
    exact compareDecimal_saturated op unordered
  · intro op other
    have never := Flags.not_condition other
    exact ⟨fun _ _ => (never _).1, fun _ _ => (never _).2, fun _ _ => (never _).1,
      fun _ _ => (never _).1, fun _ _ => (never _).1⟩

/-- The least signed word is less than one, though the difference of the two is
positive; a decimal that did not fit is less than itself, and a third written
with sixteen digits is less than it is with fifteen of them and a four. -/
theorem relations_decided_overflow :
    Comparison.Holds .lt (-2147483648 : ℤ) 1 ∧
    compareDecimal (.comparison .lt) none none = true ∧
    Decimal.Words.compare ⟨3333333333333333, 16⟩ ⟨333333333333334, 15⟩ = .ok .lt ∧
    compareUnsigned (.binary .sub) 0 1 = false := by
  obtain ⟨signs, -, -, machine, unordered, -, never⟩ := relations_decided
  have least : compareSigned (.comparison .lt) Int32.minValue 1 = true := by decide
  have third : Decimal.normalize 3333333333333333 16 = some ⟨3333333333333333, 16⟩ := by
    decide +kernel
  have more : Decimal.normalize 333333333333334 15 = some ⟨333333333333334, 15⟩ := by
    decide +kernel
  have less : Decimal.compare ⟨3333333333333333, 16⟩ ⟨333333333333334, 15⟩ = .lt := by
    decide +kernel
  have compared := machine _ _ (Decimal.canonical_of_normalize third)
    (Decimal.canonical_of_normalize more)
  rw [less] at compared
  exact ⟨(signs .lt Int32.minValue 1).1 least, (unordered .lt none none (.inl rfl)).2 (by decide),
    compared, (never (.binary .sub) rfl).2.1 0 1⟩

end Arithmetic

end LineScript
