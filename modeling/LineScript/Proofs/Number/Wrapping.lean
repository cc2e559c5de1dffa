import LineScript.Machine.Perform
import Mathlib.Data.Int.ModEq
import Mathlib.Data.Rat.Floor
/-!
# Words as whole numbers

A word of 32 bits can be read as a signed and as an unsigned number, and the
two readings differ by a multiple of `2 ^ 32` (`toInt_modEq`). Operators that
do not look at the sign give the same bits in both readings
(`toUInt32_signedBinary`), so what is proved of unsigned sums, differences,
products and shifts to the left is true of signed ones too. A shift to the
right does look at it, and is a floored quotient in either reading.

The count of a shift is always unsigned, and may be as large as a word. From
32 places on nothing of the number is left but its sign, which is what the
laws of the whole numbers say as well (`words_wrap`).
-/

namespace LineScript

namespace Arithmetic

/-- The laws of whole numbers that an arithmetic of words keeps, where `value`
is the number a word stands for and `count` the places it says to shift by. -/
structure Wraps {Word : Type} (compute : Operator → Word → Word → Option Word)
    (value : Word → ℤ) (count : Word → ℕ) : Prop where
  add (a b : Word) : ∃ r, compute (.binary .add) a b = some r ∧
    value r ≡ value a + value b [ZMOD 2 ^ 32]
  sub (a b : Word) : ∃ r, compute (.binary .sub) a b = some r ∧
    value r ≡ value a - value b [ZMOD 2 ^ 32]
  mul (a b : Word) : ∃ r, compute (.binary .mul) a b = some r ∧
    value r ≡ value a * value b [ZMOD 2 ^ 32]
  shiftLeft (a b : Word) : ∃ r, compute (.binary .shiftLeft) a b = some r ∧
    value r ≡ value a * 2 ^ count b [ZMOD 2 ^ 32]
  shiftRight (a b : Word) : ∃ r, compute (.binary .shiftRight) a b = some r ∧
    value r = ⌊(value a : ℚ) / 2 ^ count b⌋

/-- The operators that do not look at the sign. -/
def signless : List Operator.Binary :=
  [.add, .sub, .mul, .bitAnd, .bitOr, .bitXor, .shiftLeft]

/-! ## Counts -/

/-- From 32 places on a shift by a power of two is one by `2 ^ 32`, and more. -/
theorem exists_two_pow_eq {n : ℕ} (many : 32 ≤ n) : ∃ more, (2 : ℤ) ^ n = 2 ^ 32 * 2 ^ more := by
  obtain ⟨more, rfl⟩ := Nat.exists_eq_add_of_le many
  exact ⟨more, pow_add 2 32 more⟩

theorem count_small {b : UInt32} (h : b < 32) : b.toNat < 32 := UInt32.lt_iff_toNat_lt.1 h

theorem count_large {b : UInt32} (h : ¬ b < 32) : 32 ≤ b.toNat := by
  rw [UInt32.lt_iff_toNat_lt] at h
  exact not_lt.1 h

/-- A count below 32 is the same when it is taken as a signed word, and modulo 32. -/
theorem toNat_smod {b : Int32} (small : b.toUInt32.toNat < 32) :
    (b.toBitVec.smod 32).toNat = b.toUInt32.toNat := by
  have pattern : b.toBitVec.toNat = b.toUInt32.toNat := rfl
  have count : b.toBitVec.toInt = b.toUInt32.toNat := by
    rw [← pattern]
    exact BitVec.toInt_eq_toNat_of_lt (by omega)
  have modulus : (32 : BitVec 32).toInt = 32 := rfl
  have kept : (b.toBitVec.smod 32).toInt = b.toUInt32.toNat := by
    rw [BitVec.toInt_smod, count, modulus]
    exact Int.fmod_eq_of_lt (by omega) (by omega)
  rw [BitVec.toInt_eq_toNat_cond] at kept
  split at kept <;> omega

/-- Powers of two divide whole numbers by rounding down. -/
theorem floor_div_two_pow (x : ℤ) (n : ℕ) : ⌊(x : ℚ) / 2 ^ n⌋ = x / 2 ^ n := by
  have floored := Rat.floor_intCast_div_natCast x (2 ^ n)
  push_cast at floored
  exact floored

/-! ## Unsigned words -/

section Unsigned

variable (a b : UInt32)

/-- A wrapped number is the number, modulo `2 ^ 32`. -/
theorem modEq_of_toNat {r : UInt32} {n : ℕ} (h : r.toNat = n % 2 ^ 32) :
    (r.toNat : ℤ) ≡ n [ZMOD 2 ^ 32] := by
  rw [h]
  push_cast
  exact Int.mod_modEq _ _

theorem sub_modEq : ((a - b).toNat : ℤ) ≡ a.toNat - b.toNat [ZMOD 2 ^ 32] := by
  have low := a.toNat_lt
  have high := b.toNat_lt
  rw [Int.ModEq, UInt32.toNat_sub]
  omega

/-- **A shift to the left multiplies**, by whatever power of two. -/
theorem shiftLeft_modEq :
    ((shiftLeft a b).toNat : ℤ) ≡ a.toNat * 2 ^ b.toNat [ZMOD 2 ^ 32] := by
  unfold shiftLeft
  split
  · next small =>
    have count : b.toNat % 32 = b.toNat := Nat.mod_eq_of_lt (count_small small)
    have shifted : (a <<< b).toNat = (a.toNat * 2 ^ b.toNat) % 2 ^ 32 := by
      rw [UInt32.toNat_shiftLeft, count, Nat.shiftLeft_eq]
    exact_mod_cast modEq_of_toNat shifted
  · next large =>
    -- every digit has left the word, and the product is a multiple of `2 ^ 32`
    obtain ⟨more, power⟩ := exists_two_pow_eq (count_large large)
    rw [power, mul_left_comm]
    exact (Int.modEq_zero_iff_dvd.2 (dvd_mul_right _ _)).symm

/-- **A shift to the right divides**, by whatever power of two. -/
theorem toNat_shiftRight : (shiftRight a b).toNat = a.toNat / 2 ^ b.toNat := by
  unfold shiftRight
  split
  · next small =>
    have count : b.toNat % 32 = b.toNat := Nat.mod_eq_of_lt (count_small small)
    rw [UInt32.toNat_shiftRight, count, Nat.shiftRight_eq_div_pow]
  · next large =>
    have power : 2 ^ 32 ≤ 2 ^ b.toNat := Nat.pow_le_pow_right (by decide) (count_large large)
    have word := a.toNat_lt
    exact (Nat.div_eq_of_lt (by omega)).symm

theorem wraps_unsigned : Wraps unsigned (fun w => (w.toNat : ℤ)) UInt32.toNat where
  add a b := ⟨a + b, rfl, by exact_mod_cast modEq_of_toNat (UInt32.toNat_add a b)⟩
  sub a b := ⟨a - b, rfl, sub_modEq a b⟩
  mul a b := ⟨a * b, rfl, by exact_mod_cast modEq_of_toNat (UInt32.toNat_mul a b)⟩
  shiftLeft a b := ⟨shiftLeft a b, rfl, shiftLeft_modEq a b⟩
  shiftRight a b := by
    refine ⟨shiftRight a b, rfl, ?_⟩
    rw [floor_div_two_pow, toNat_shiftRight]
    push_cast
    rfl

end Unsigned

/-! ## Signed words -/

section Signed

variable (a b : Int32)

/-- **The two readings of a word** differ by a multiple of `2 ^ 32`. -/
theorem toInt_modEq : a.toInt ≡ a.toUInt32.toNat [ZMOD 2 ^ 32] := by
  have balanced : a.toInt = (a.toUInt32.toNat : ℤ).bmod (2 ^ 32) :=
    BitVec.toInt_eq_toNat_bmod a.toBitVec
  rw [balanced]
  exact Int.bmod_emod

/-- The two shifts to the left move the same digits. -/
theorem toUInt32_shiftLeft :
    (signedBinary .shiftLeft a b).toUInt32 = shiftLeft a.toUInt32 b.toUInt32 := by
  unfold signedBinary shiftLeft
  dsimp only
  split
  · next small =>
    have count := toNat_smod (count_small small)
    have modulo : (b.toBitVec % 32).toNat = b.toUInt32.toNat :=
      Nat.mod_eq_of_lt (count_small small)
    apply UInt32.toBitVec_inj.1
    change a.toBitVec <<< (b.toBitVec.smod 32).toNat = a.toBitVec <<< (b.toBitVec % 32).toNat
    rw [count, modulo]
  · rfl

/-- **Operators that do not look at the sign** give the same bits in both readings. -/
theorem toUInt32_signedBinary {op : Operator.Binary} (h : op ∈ signless) :
    (signedBinary op a b).toUInt32 = unsignedBinary op a.toUInt32 b.toUInt32 := by
  cases op with
  | add => exact Int32.toUInt32_add a b
  | sub => exact Int32.toUInt32_sub a b
  | mul => exact Int32.toUInt32_mul a b
  | bitAnd => exact Int32.toUInt32_and a b
  | bitOr => exact Int32.toUInt32_or a b
  | bitXor => exact Int32.toUInt32_xor a b
  | shiftLeft => exact toUInt32_shiftLeft a b
  | div | mod | shiftRight => exact absurd h (by decide)

/-- **A signed shift to the right divides**, rounding down, by whatever power of two. -/
theorem toInt_shiftRight :
    (signedBinary .shiftRight a b).toInt = a.toInt / 2 ^ b.toUInt32.toNat := by
  unfold signedBinary
  dsimp only
  split
  · next small =>
    have shifted : (a >>> b).toInt = (a.toBitVec.sshiftRight (b.toBitVec.smod 32).toNat).toInt :=
      rfl
    rw [shifted, BitVec.toInt_sshiftRight, toNat_smod (count_small small),
      Int.shiftRight_eq_div_pow]
    push_cast
    rfl
  · next large =>
    -- the power is larger than any word, so the quotient lies between minus one and one
    have power : (2 : ℤ) ^ 32 ≤ 2 ^ b.toUInt32.toNat :=
      pow_le_pow_right₀ (by decide) (count_large large)
    have low := a.le_toInt
    have high := a.toInt_lt
    split
    · next negative =>
      have below : a.toInt < 0 := Int32.lt_iff_toInt_lt.1 negative
      exact (Int.ediv_eq_neg_one_of_neg_of_le below (by omega)).symm
    · next positive =>
      rw [Int32.lt_iff_toInt_lt] at positive
      exact (Int.ediv_eq_zero_of_lt (not_lt.1 positive) (by omega)).symm

variable {a b} in
/-- What the same bits are congruent to as unsigned words, they are as signed ones. -/
theorem exists_signed_modEq {op : Operator.Binary} {x y : ℤ} (h : op ∈ signless)
    (law : ∃ r, unsigned (.binary op) a.toUInt32 b.toUInt32 = some r ∧ r.toNat ≡ x [ZMOD 2 ^ 32])
    (same : y ≡ x [ZMOD 2 ^ 32]) :
    ∃ r, signed (.binary op) a b = some r ∧ r.toInt ≡ y [ZMOD 2 ^ 32] := by
  obtain ⟨r, computed, congruent⟩ := law
  have bits : (signedBinary op a b).toUInt32 = r :=
    (toUInt32_signedBinary a b h).trans (Option.some.inj computed)
  refine ⟨_, rfl, ?_⟩
  calc (signedBinary op a b).toInt
      ≡ (signedBinary op a b).toUInt32.toNat [ZMOD 2 ^ 32] := toInt_modEq _
    _ ≡ x [ZMOD 2 ^ 32] := bits ▸ congruent
    _ ≡ y [ZMOD 2 ^ 32] := same.symm

theorem wraps_signed : Wraps signed Int32.toInt (fun w => w.toUInt32.toNat) where
  add a b := exists_signed_modEq (by decide) (wraps_unsigned.add _ _)
    ((toInt_modEq a).add (toInt_modEq b))
  sub a b := exists_signed_modEq (by decide) (wraps_unsigned.sub _ _)
    ((toInt_modEq a).sub (toInt_modEq b))
  mul a b := exists_signed_modEq (by decide) (wraps_unsigned.mul _ _)
    ((toInt_modEq a).mul (toInt_modEq b))
  shiftLeft a b := exists_signed_modEq (by decide) (wraps_unsigned.shiftLeft _ _)
    ((toInt_modEq a).mul_right _)
  shiftRight a b := by
    refine ⟨signedBinary .shiftRight a b, rfl, ?_⟩
    rw [floor_div_two_pow, toInt_shiftRight]

end Signed

/-- **Words keep the laws of whole numbers**, in either reading: sums,
differences and products are the exact ones modulo `2 ^ 32`, and shifts
multiply and divide by powers of two, however many places there are to shift
by. Operators that do not look at the sign give the same bits in both
readings, and `lsl` and `lsr` write the words that unsigned shifts give. -/
theorem words_wrap :
    Wraps signed Int32.toInt (fun w => w.toUInt32.toNat) ∧
    Wraps unsigned (fun w => w.toNat) UInt32.toNat ∧
    (∀ op ∈ signless, ∀ a b : Int32,
      (signed (.binary op) a b).map Int32.toUInt32 =
        unsigned (.binary op) a.toUInt32 b.toUInt32) ∧
    ∀ (m : Machine) (operator : Option Operator) (operands : List Operand) (v : Sources),
      (∃ r, unsigned (.binary .shiftLeft) (v.unsigned 1) (v.unsigned 2) = some r ∧
        m.perform ⟨.bitwise .shiftLeft, operator, operands⟩ v = (.write (Text.ofBits r), m)) ∧
      ∃ r, unsigned (.binary .shiftRight) (v.unsigned 1) (v.unsigned 2) = some r ∧
        m.perform ⟨.bitwise .shiftRight, operator, operands⟩ v = (.write (Text.ofBits r), m) := by
  refine ⟨wraps_signed, wraps_unsigned, fun op blind a b => ?_, fun m _ _ v => ⟨?_, ?_⟩⟩
  · exact congrArg some (toUInt32_signedBinary a b blind)
  · exact ⟨shiftLeft (v.unsigned 1) (v.unsigned 2), rfl, rfl⟩
  · exact ⟨shiftRight (v.unsigned 1) (v.unsigned 2), rfl, rfl⟩

/-- Forty places to the right leave the sign; a count that is negative as a
signed word is a large one, and leaves nothing to the left. -/
theorem words_wrap_large_count :
    signed (.binary .shiftRight) (-7) 40 = some (-1) ∧
    ⌊((-7 : ℤ) : ℚ) / 2 ^ 40⌋ = -1 ∧
    Operator.Binary.shiftLeft ∈ signless ∧
    (signed (.binary .shiftLeft) (-7) (-1)).map Int32.toUInt32 =
      unsigned (.binary .shiftLeft) 4294967289 4294967295 := by
  obtain ⟨signs, -, bits, -⟩ := words_wrap
  have computed : signed (.binary .shiftRight) (-7) 40 = some (-1) := by decide +kernel
  obtain ⟨r, given, floored⟩ := signs.shiftRight (-7) 40
  obtain rfl := Option.some.inj (computed.symm.trans given)
  have blind : Operator.Binary.shiftLeft ∈ signless := by decide
  exact ⟨computed, floored.symm, blind, bits _ blind (-7) (-1)⟩

end Arithmetic

end LineScript
