import LineScript.Text
/-!
# Numerals

How a text is read as a number. Spaces and commas anywhere are dropped, a
sign may stand in front, and what follows the digits is ignored. Digits are
decimal, or hexadecimal after `0x`, or binary after `0b`. A decimal numeral
may have a point and an exponent; then it is a binary64 number and an integer
is had from it by truncation.
-/

namespace LineScript

/-- A text without its spaces and commas, split after the sign. -/
structure Numeral where
  negative : Bool
  body : Text

namespace Numeral

/-- Splits off the sign. -/
def ofText (t : Text) : Numeral :=
  match t.filter fun c => c ≠ ' ' ∧ c ≠ ',' with
  | '-' :: body => ⟨true, body⟩
  | '+' :: body => ⟨false, body⟩
  | body => ⟨false, body⟩

/-! ## Digits -/

/-- The value of a digit or letter, `a` and `A` being ten; 36 for any other
character, which is no digit in any radix. -/
def digitValue (c : Char) : Nat :=
  if '0' ≤ c ∧ c ≤ '9' then c.toNat - '0'.toNat
  else if 'a' ≤ c ∧ c ≤ 'z' then c.toNat - 'a'.toNat + 10
  else if 'A' ≤ c ∧ c ≤ 'Z' then c.toNat - 'A'.toNat + 10
  else 36

/-- Whether a character is a digit in this radix. -/
def isDigit (radix : Nat) (c : Char) : Bool := digitValue c < radix

/-- The number some digits write. -/
def natOfDigits (radix : Nat) (digits : Text) : Nat :=
  digits.foldl (fun n c => n * radix + digitValue c) 0

/-- The radix a numeral announces, and what follows the announcement. -/
def radixOf (body : Text) : Nat × Text :=
  match body with
  | '0' :: 'x' :: rest | '0' :: 'X' :: rest => (16, rest)
  | '0' :: 'b' :: rest | '0' :: 'B' :: rest => (2, rest)
  | _ => (10, body)

/-- The number that the leading digits of a numeral write. -/
def wholeValue (body : Text) : Nat :=
  let (radix, rest) := radixOf body
  natOfDigits radix (rest.takeWhile (isDigit radix))

/-! ## Points and exponents -/

/-- A decimal numeral: the digits before the point, those after it if there
is a point, and the exponent if there is one. -/
structure Scientific where
  whole : Text
  fraction : Option Text
  exponent : Option Int

/-- The exponent a text begins with: `e`, a sign if any, and some digits. -/
def exponent? (t : Text) : Option Int :=
  match t with
  | 'e' :: rest | 'E' :: rest =>
    let (negative, rest) := match rest with
      | '-' :: rest => (true, rest)
      | '+' :: rest => (false, rest)
      | _ => (false, rest)
    let digits := rest.takeWhile Char.isDigit
    if digits.isEmpty then none
    else
      let n : Int := natOfDigits 10 digits
      some (if negative then -n else n)
  | _ => none

/-- The decimal numeral a text begins with. -/
def Scientific.ofText (t : Text) : Scientific :=
  let whole := t.takeWhile Char.isDigit
  match t.dropWhile Char.isDigit with
  | '.' :: rest =>
    { whole, fraction := some (rest.takeWhile Char.isDigit),
      exponent := exponent? (rest.dropWhile Char.isDigit) }
  | rest => { whole, fraction := none, exponent := exponent? rest }

/-- Whether the numeral is a plain run of digits. -/
def Scientific.isWhole (s : Scientific) : Bool := s.fraction.isNone && s.exponent.isNone

/-- The binary64 number nearest to the numeral, if it has any digits. -/
def Scientific.toFloat? (s : Scientific) : Option Float :=
  let fraction := s.fraction.getD []
  let digits := s.whole ++ fraction
  if digits.isEmpty then none
  else
    let e : Int := s.exponent.getD 0 - fraction.length
    some (Float.ofScientific (natOfDigits 10 digits) (e < 0) e.natAbs)

/-! ## Values -/

/-- The 32-bit pattern of a number cut to an integer: of the nearest signed
word if it is negative, and else of the nearest unsigned one. A NaN gives zero. -/
def truncate (f : Float) : UInt32 := if f < 0 then f.toInt32.toUInt32 else f.toUInt32

/-- The value with the sign applied. -/
def signed {α : Type} [Neg α] (n : Numeral) (x : α) : α := if n.negative then -x else x

/-- The 32-bit pattern that a text reads as; larger integers wrap. -/
def toBits (t : Text) : UInt32 :=
  let n := ofText t
  let s := Scientific.ofText n.body
  if (radixOf n.body).1 = 10 ∧ ¬ s.isWhole then truncate (n.signed (s.toFloat?.getD 0))
  else n.signed (wholeValue n.body).toUInt32

/-- The signed word that a text reads as. -/
def toInt32 (t : Text) : Int32 := (toBits t).toInt32

/-- The binary64 number that a text reads as. -/
def toFloat (t : Text) : Float :=
  let n := ofText t
  match (Scientific.ofText n.body).toFloat? with
  | some f => if (radixOf n.body).1 = 10 then n.signed f else Float.ofInt (toInt32 t).toInt
  | none => Float.ofInt (toInt32 t).toInt

end Numeral

end LineScript
