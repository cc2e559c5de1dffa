import LineScript.Flags
import LineScript.Value
import LineScript.Word.Command
/-!
# Arithmetic

What the operators compute in each domain. An operator that has no meaning in
a domain computes nothing. Words wrap; a quotient that has no 32-bit value
(by zero, or the least signed word by minus one) is zero, with remainder
zero; a shift by 32 or more leaves nothing but the sign.
-/

namespace LineScript

namespace Arithmetic

open Operator

/-! ## Words -/

/-- Whether a signed division has no quotient. -/
def undefinedQuotient (a b : Int32) : Bool := b = 0 || (a = Int32.minValue && b = -1)

/-- A binary operation on signed words. -/
def signedBinary (op : Binary) (a b : Int32) : Int32 :=
  match op with
  | .add => a + b
  | .sub => a - b
  | .mul => a * b
  | .div => if undefinedQuotient a b then 0 else a / b
  | .mod => if undefinedQuotient a b then 0 else a % b
  | .bitAnd => a &&& b
  | .bitOr => a ||| b
  | .bitXor => a ^^^ b
  | .shiftLeft => if b.toUInt32 < 32 then a <<< b else 0
  | .shiftRight => if b.toUInt32 < 32 then a >>> b else if a < 0 then -1 else 0

/-- The word shifted left, with nothing left from 32 places on. -/
def shiftLeft (a b : UInt32) : UInt32 := if b < 32 then a <<< b else 0

/-- The word shifted right, with nothing left from 32 places on. -/
def shiftRight (a b : UInt32) : UInt32 := if b < 32 then a >>> b else 0

/-- A binary operation on unsigned words. -/
def unsignedBinary (op : Binary) (a b : UInt32) : UInt32 :=
  match op with
  | .add => a + b
  | .sub => a - b
  | .mul => a * b
  | .div => if b = 0 then 0 else a / b
  | .mod => if b = 0 then 0 else a % b
  | .bitAnd => a &&& b
  | .bitOr => a ||| b
  | .bitXor => a ^^^ b
  | .shiftLeft => shiftLeft a b
  | .shiftRight => shiftRight a b

/-- The result of an operator on signed words. -/
def signed (op : Operator) (a b : Int32) : Option Int32 :=
  match op with
  | .binary op => some (signedBinary op a b)
  | _ => none

/-- The result of an operator on unsigned words. -/
def unsigned (op : Operator) (a b : UInt32) : Option UInt32 :=
  match op with
  | .binary op => some (unsignedBinary op a b)
  | _ => none

/-- The result of a logic command; `not` only looks at the first word. -/
def bitwise (op : Bitwise) (a b : UInt32) : UInt32 :=
  match op with
  | .and => a &&& b
  | .or => a ||| b
  | .xor => a ^^^ b
  | .not => ~~~a
  | .shiftLeft => shiftLeft a b
  | .shiftRight => shiftRight a b

/-! ## Decimals -/

/-- The operations that decimals and binary64 numbers have. -/
inductive Basic where
  | add | sub | mul | div | mod
deriving DecidableEq

/-- The basic operation an operator is. -/
def basic? : Operator → Option Basic
  | .binary .add => some .add
  | .binary .sub => some .sub
  | .binary .mul => some .mul
  | .binary .div => some .div
  | .binary .mod => some .mod
  | _ => none

/-- A basic operation on decimals. -/
def decimalBasic : Basic → Decimal → Decimal → Option Decimal
  | .add => Decimal.add
  | .sub => Decimal.sub
  | .mul => Decimal.mul
  | .div => Decimal.div
  | .mod => Decimal.rem

/-- The result of an operator on decimals. An operand that did not fit gives
a result that does not. -/
def decimal (op : Operator) (a b : Option Decimal) : Option (Option Decimal) :=
  (basic? op).map fun op =>
    match a, b with
    | some a, some b => decimalBasic op a b
    | _, _ => none

/-! ## Binary64 numbers -/

/-- A basic operation on binary64 numbers. -/
def floatBasic : Basic → Float → Float → Float
  | .add => fun a b => a + b
  | .sub => fun a b => a - b
  | .mul => fun a b => a * b
  | .div => fun a b => a / b
  | .mod => Binary64.remainder

/-- The result of a binary operator on binary64 numbers. -/
def float (op : Operator) (a b : Float) : Option Float := (basic? op).map (floatBasic · a b)

/-- One degree in radians: the quotient of the number next to π by 180. -/
def radian : Float := Float.ofBits 0x400921FB54442D18 / 180

/-- The value of a function. -/
def apply : Operator.Function → Float → Float
  | .sqrt => Float.sqrt
  | .rad => fun x => x * radian
  | .sin => Float.sin
  | .cos => Float.cos
  | .tan => Float.tan
  | .ln => Float.log
  | .log => Float.log10
  | .abs => Float.abs
  | .neg => fun x => -x

/-- The result of a function of one number. -/
def function (op : Operator) (x : Float) : Option Float :=
  match op with
  | .function f => some (apply f x)
  | _ => none

/-! ## Comparisons -/

/-- Whether a relation of signed words holds. -/
def compareSigned (op : Operator) (a b : Int32) : Bool :=
  (Flags.subtract a.toUInt32 b.toUInt32).signed op

/-- Whether a relation of unsigned words holds. -/
def compareUnsigned (op : Operator) (a b : UInt32) : Bool := (Flags.subtract a b).unsigned op

/-- Whether a relation of decimals holds. One that did not fit is unordered. -/
def compareDecimal (op : Operator) (a b : Option Decimal) : Bool :=
  let ordering := match a, b with
    | some a, some b => some (a.compare b)
    | _, _ => none
  (Flags.ofOrdering ordering).signed op

/-- How two binary64 numbers compare, unless one is a NaN. -/
def floatOrdering (a b : Float) : Option Ordering :=
  if a < b then some .lt
  else if a == b then some .eq
  else if b < a then some .gt
  else none

/-- Whether a relation of binary64 numbers holds. -/
def compareFloat (op : Operator) (a b : Float) : Bool :=
  (Flags.ofOrdering (floatOrdering a b)).signed op

/-- Whether a relation of texts holds. Texts are only compared for equality. -/
def compareText (op : Operator) (a b : Text) : Bool := (Flags.ofEquality (a = b)).signed op

end Arithmetic

end LineScript
