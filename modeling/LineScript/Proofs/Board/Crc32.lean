import LineScript.Proofs.Board.Image
import Mathlib.Data.Nat.Bitwise
/-!
# The register of the checksum

A shift of the register is linear in exclusive or (`Crc32.shift_xor`) and loses
nothing (`Crc32.shift_injective`), since the polynomial has its highest bit.
Four bytes in a row are therefore taken in as one word (`Crc32.foldl_wordBytes`),
and no other four in their place leave the register as they do
(`Crc32.foldl_injective`).
-/

namespace LineScript

namespace Crc32

variable {a b : UInt32}

/-! ## Shifts -/

theorem toNat_shiftRight (n : UInt32) {k : UInt32} (small : k.toNat < 32) :
    (n >>> k).toNat = n.toNat / 2 ^ k.toNat := by
  rw [UInt32.toNat_shiftRight, Nat.mod_eq_of_lt small, Nat.shiftRight_eq_div_pow]

theorem and_one_eq_one_iff (n : UInt32) : n &&& 1 = 1 ↔ n.toNat % 2 = 1 := by
  rw [← UInt32.toNat_inj, UInt32.toNat_and, UInt32.toNat_one, Nat.and_one_is_mod]

/-- A bit that is shifted out brings the polynomial in. -/
theorem shift_eq (n : UInt32) :
    shift n = n >>> 1 ^^^ if n.toNat % 2 = 1 then polynomial else 0 := by
  simp only [shift, and_one_eq_one_iff]
  split
  · rfl
  · rw [UInt32.xor_zero]

/-- **A shift is linear.** -/
theorem shift_xor (a b : UInt32) : shift (a ^^^ b) = shift a ^^^ shift b := by
  have parity : (a ^^^ b).toNat % 2 = (a.toNat + b.toNat) % 2 := by
    rw [UInt32.toNat_xor, Nat.xor_mod_two_eq]
  have polynomials : (if (a.toNat + b.toNat) % 2 = 1 then polynomial else 0) =
      (if a.toNat % 2 = 1 then polynomial else 0) ^^^
        (if b.toNat % 2 = 1 then polynomial else 0) := by
    rcases Nat.mod_two_eq_zero_or_one a.toNat with even | odd <;>
      rcases Nat.mod_two_eq_zero_or_one b.toNat with even' | odd' <;>
        simp [Nat.add_mod, *]
  rw [shift_eq, shift_eq, shift_eq, parity, polynomials, UInt32.shiftRight_xor]
  ac_rfl

/-- Only nothing is shifted to nothing. -/
theorem eq_zero_of_shift (h : shift a = 0) : a = 0 := by
  have half : (a >>> 1).toNat = a.toNat / 2 := toNat_shiftRight a (by decide)
  have small := a.toNat_lt
  rw [shift_eq, UInt32.xor_eq_zero_iff, ← UInt32.toNat_inj, half] at h
  rw [← UInt32.toNat_inj, UInt32.toNat_zero]
  split at h
  · -- the polynomial is too large for the half of a word
    have high : polynomial.toNat = 0xEDB88320 := rfl
    omega
  · rw [UInt32.toNat_zero] at h
    omega

/-- **A shift loses nothing.** -/
theorem shift_injective : Function.Injective shift := by
  intro a b same
  have none : shift (a ^^^ b) = 0 := by
    rw [shift_xor, same, UInt32.xor_self]
  exact UInt32.xor_eq_zero_iff.1 (eq_zero_of_shift none)

theorem shifts_xor (n : Nat) (a b : UInt32) : shifts n (a ^^^ b) = shifts n a ^^^ shifts n b := by
  induction n generalizing a b with
  | zero => rfl
  | succ n ih => rw [shifts, shift_xor, ih, shifts, shifts]

theorem shifts_injective (n : Nat) : Function.Injective (shifts n) := by
  induction n with
  | zero => exact fun _ _ same => same
  | succ n ih => exact fun _ _ same => shift_injective (ih same)

theorem shifts_add (n n' : Nat) (a : UInt32) : shifts (n + n') a = shifts n' (shifts n a) := by
  induction n generalizing a with
  | zero => rw [Nat.zero_add, shifts]
  | succ n ih => rw [Nat.succ_add, shifts, shifts, ih]

/-- As long as only zeros are shifted out the polynomial does not come in. -/
theorem toNat_shifts_of_dvd {n : Nat} (zeros : 2 ^ n ∣ a.toNat) :
    (shifts n a).toNat = a.toNat / 2 ^ n := by
  induction n generalizing a with
  | zero => rw [shifts, Nat.pow_zero, Nat.div_one]
  | succ n ih =>
    obtain ⟨k, whole⟩ := zeros
    have even : ¬ a.toNat % 2 = 1 := by
      rw [whole, Nat.pow_succ', Nat.mul_assoc, Nat.mul_mod_right]
      exact Nat.zero_ne_one
    have half : (shift a).toNat = 2 ^ n * k := by
      rw [shift_eq, if_neg even, UInt32.xor_zero, toNat_shiftRight a (by decide), whole,
        Nat.pow_succ', Nat.mul_assoc]
      exact Nat.mul_div_cancel_left _ Nat.two_pos
    rw [shifts, ih ⟨k, half⟩, half, whole, Nat.mul_div_cancel_left _ (Nat.two_pow_pos n),
      Nat.mul_div_cancel_left _ (Nat.two_pow_pos (n + 1))]

/-! ## Bytes -/

/-- **Eight shifts take in the lowest byte of a word** and move the others down. -/
theorem shifts_eight (register n : UInt32) :
    shifts 8 (register ^^^ n) = update register n.toUInt8 ^^^ n >>> 8 := by
  have low : n.toUInt8.toUInt32.toNat = n.toNat % 2 ^ 8 := by
    rw [UInt8.toNat_toUInt32, UInt32.toNat_toUInt8]
  have zeros : 2 ^ 8 ∣ (n.toUInt8.toUInt32 ^^^ n).toNat := by
    rw [Nat.dvd_iff_mod_eq_zero, UInt32.toNat_xor, Nat.xor_mod_two_pow, low, Nat.mod_mod,
      Nat.xor_self]
  have high : shifts 8 (n.toUInt8.toUInt32 ^^^ n) = n >>> 8 := by
    rw [← UInt32.toNat_inj, toNat_shifts_of_dvd zeros, UInt32.toNat_xor, Nat.xor_div_two_pow, low,
      Nat.div_eq_of_lt (Nat.mod_lt _ (Nat.two_pow_pos 8)), Nat.zero_xor,
      toNat_shiftRight n (by decide)]
    rfl
  rw [update, ← high, ← shifts_xor, UInt32.xor_assoc, ← UInt32.xor_assoc _ _ n, UInt32.xor_self,
    UInt32.zero_xor]

/-- **Four bytes are taken in as one word.** -/
theorem foldl_wordBytes (register n : UInt32) :
    (Image.wordBytes n).foldl update register = shifts 32 (register ^^^ n) := by
  have bytes : n >>> 8 >>> 8 = n >>> 16 ∧ n >>> 16 >>> 8 = n >>> 24 ∧ n >>> 24 >>> 8 = 0 := by
    have small := n.toNat_lt
    simp only [← UInt32.toNat_inj, UInt32.toNat_shiftRight, Nat.shiftRight_eq_div_pow,
      UInt32.reduceToNat, Nat.reduceMod, Nat.reducePow]
    omega
  obtain ⟨second, third, last⟩ := bytes
  have split : shifts 32 (register ^^^ n) =
      shifts 8 (shifts 8 (shifts 8 (shifts 8 (register ^^^ n)))) := by
    rw [← shifts_add, ← shifts_add, ← shifts_add]
  rw [split, shifts_eight, shifts_eight, second, shifts_eight, third, shifts_eight, last,
    UInt32.xor_zero]
  rfl

theorem foldl_injective (bytes : List UInt8) :
    Function.Injective fun register => bytes.foldl update register := by
  induction bytes with
  | nil => exact fun _ _ same => same
  | cons byte bytes ih =>
    intro a b same
    have taken : update a byte = update b byte := ih same
    exact (UInt32.xor_left_inj _).1 (shifts_injective 8 taken)

/-- Bytes and their checksum leave the same register whatever the bytes are. -/
theorem foldl_checksum (bytes : List UInt8) :
    (bytes ++ Image.wordBytes (checksum bytes)).foldl update 0xFFFFFFFF = shifts 32 0xFFFFFFFF := by
  have ones : ∀ n : UInt32, n ^^^ ~~~ n = 0xFFFFFFFF := by
    intro n
    rw [UInt32.xor_not, UInt32.xor_self]
    rfl
  rw [List.foldl_append, foldl_wordBytes, checksum, ones]

end Crc32

end LineScript
