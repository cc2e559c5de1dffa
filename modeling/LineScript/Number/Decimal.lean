import LineScript.Number.Numeral
/-!
# Sixteen-digit decimals

A decimal is `value / 10 ^ scale` with at most sixteen significant digits.
Every operation computes exactly, a quotient to a number of places, and then
normalises: fraction digits that do not fit are dropped, toward zero, and so
are zeros at the end of a fraction.
A result whose integer part alone takes more than sixteen digits does not
fit at all; the operations answer `none` for it, and so do division and
remainder by zero.
-/

namespace LineScript

/-- The number `value / 10 ^ scale`. -/
structure Decimal where
  value : Int
  scale : Nat
deriving DecidableEq

namespace Decimal

/-- How many significant digits a decimal has, and how many fraction digits. -/
def precision : Nat := 16

/-- The least magnitude that takes more digits than there are. -/
def limit : Nat := 10 ^ precision

/-- Drops fraction digits while there are too many of them, while the number
has too many digits, and while the last one is zero. -/
def normalize (value : Int) : (scale : Nat) → Option Decimal
  | 0 => if value.natAbs < limit then some ⟨value, 0⟩ else none
  | scale + 1 =>
    if precision < scale + 1 ∨ limit ≤ value.natAbs ∨ value.tmod 10 = 0 then
      normalize (value.tdiv 10) scale
    else some ⟨value, scale + 1⟩

/-- Zero. -/
def zero : Decimal := ⟨0, 0⟩

/-- A whole number. -/
def ofInt (n : Int) : Option Decimal := normalize n 0

/-! ## Reading -/

/-- One more fraction digit, if there is still room for it. -/
def pushDigit (digits : Nat × Nat) (c : Char) : Nat × Nat :=
  if digits.1 < limit / 10 ∧ digits.2 < precision then
    (digits.1 * 10 + Numeral.digitValue c, digits.2 + 1)
  else digits

/-- The decimal numeral a text begins with, once its spaces and commas are
dropped; zero if it has no digits. -/
def parse (t : Text) : Option Decimal :=
  let n := Numeral.ofText t
  let whole := Numeral.natOfDigits 10 (n.body.takeWhile Char.isDigit)
  if limit ≤ whole then none
  else
    let fraction := match n.body.dropWhile Char.isDigit with
      | '.' :: rest => rest.takeWhile Char.isDigit
      | _ => []
    let (value, scale) := fraction.foldl pushDigit (whole, 0)
    normalize (if n.negative then -(value : Int) else value) scale

/-! ## Writing -/

/-- All digits of a decimal: the integer part, and the fraction if there is one. -/
def render (d : Decimal) : Text :=
  let sign := if d.value < 0 then ['-'] else []
  let magnitude := d.value.natAbs
  if d.scale = 0 then sign ++ Text.ofNat magnitude
  else
    sign ++ Text.ofNat (magnitude / 10 ^ d.scale) ++
      '.' :: Text.padLeft d.scale '0' (Text.ofNat (magnitude % 10 ^ d.scale))

/-- What stands for a result that does not fit. -/
def saturated : Text := "FFFFFFFFFFFFFFFF".toList

/-- A result as text. -/
def renderResult : Option Decimal → Text
  | some d => d.render
  | none => saturated

/-- Reads a decimal or the text of a result that did not fit. -/
def parseResult (t : Text) : Option Decimal :=
  if saturated.isPrefixOf t.dropSpaces then none else parse t

/-! ## Arithmetic -/

variable (a b : Decimal)

/-- The two values over the larger of the two scales, and that scale. -/
def align : Int × Int × Nat :=
  let scale := max a.scale b.scale
  (a.value * 10 ^ (scale - a.scale), b.value * 10 ^ (scale - b.scale), scale)

/-- The sum. -/
def add : Option Decimal :=
  let (x, y, scale) := align a b
  normalize (x + y) scale

/-- The difference. -/
def sub : Option Decimal :=
  let (x, y, scale) := align a b
  normalize (x - y) scale

/-- The product. -/
def mul : Option Decimal := normalize (a.value * b.value) (a.scale + b.scale)

/-- The quotient, computed to `20 - b.scale` fraction digits. -/
def div : Option Decimal :=
  if b.value = 0 then none
  else
    let extra := 20 - b.scale
    normalize ((a.value * 10 ^ (b.scale + extra)).tdiv (b.value * 10 ^ a.scale)) extra

/-- The remainder of the truncated quotient. -/
def rem : Option Decimal :=
  let (x, y, scale) := align a b
  if y = 0 then none else normalize (x.tmod y) scale

/-- How the two numbers compare. -/
def compare : Ordering :=
  let (x, y, _) := align a b
  Ord.compare x y

/-- Whether the number is below zero. -/
def isNegative : Bool := a.value < 0

/-- How many digits stand before the point. -/
def integerLen : Nat := (Text.ofNat (a.value.natAbs / 10 ^ a.scale)).length

end Decimal

end LineScript
