import LineScript.Word.Operator
/-!
# Condition flags

A comparison sets four flags, as the subtraction of two 32-bit registers
does: negative, zero, carry (no borrow) and overflow. A relation is then a
condition on the flags. The signed and the unsigned conditions read different
flags, so one pattern can be less than another in one reading only.
-/

namespace LineScript

/-- The four condition flags. -/
structure Flags where
  negative : Bool
  zero : Bool
  carry : Bool
  overflow : Bool
deriving DecidableEq

namespace Flags

/-- The flags of `a - b`. -/
def subtract (a b : UInt32) : Flags :=
  let d := a - b
  { negative := d.toInt32 < 0
    zero := d = 0
    carry := b ≤ a
    -- the operands differ in sign and the result has not the sign of the first
    overflow := (a.toInt32 < 0) != (b.toInt32 < 0) && (d.toInt32 < 0) != (a.toInt32 < 0) }

/-- The flags of an ordering; `none` is unordered. -/
def ofOrdering : Option Ordering → Flags
  | some .lt => ⟨true, false, false, false⟩
  | some .eq => ⟨false, true, true, false⟩
  | some .gt => ⟨false, false, true, false⟩
  | none => ⟨false, false, true, true⟩

/-- The flags of a test for equality, which sets nothing but zero. -/
def ofEquality (equal : Bool) : Flags := ⟨false, equal, false, false⟩

/-- The flags as a number, overflow being the lowest bit. -/
def toNat (f : Flags) : Nat :=
  f.negative.toNat * 8 + f.zero.toNat * 4 + f.carry.toNat * 2 + f.overflow.toNat

/-- Whether a relation of signed numbers holds. No other operator does. -/
def signed (f : Flags) : Operator → Bool
  | .comparison .eq => f.zero
  | .comparison .ne => !f.zero
  | .comparison .lt => f.negative != f.overflow
  | .comparison .ge => f.negative == f.overflow
  | .comparison .gt => !f.zero && f.negative == f.overflow
  | .comparison .le => f.zero || f.negative != f.overflow
  | _ => false

/-- Whether a relation of unsigned numbers holds. No other operator does. -/
def unsigned (f : Flags) : Operator → Bool
  | .comparison .eq => f.zero
  | .comparison .ne => !f.zero
  | .comparison .lt => !f.carry
  | .comparison .ge => f.carry
  | .comparison .gt => f.carry && !f.zero
  | .comparison .le => !f.carry || f.zero
  | _ => false

end Flags

end LineScript
