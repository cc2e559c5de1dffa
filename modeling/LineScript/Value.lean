import LineScript.Domain
import LineScript.Number.Binary64
import LineScript.Number.Decimal
/-!
# Values

An operand as it was read in its domain, and how a value is seen from every
other domain. Whatever has no direct conversion goes through its text.
-/

namespace LineScript

/-- A value; a decimal is `none` when it did not fit. -/
inductive Value where
  | signed (n : Int32)
  | unsigned (n : UInt32)
  | decimal (d : Option Decimal)
  | float (f : Float)
  | text (t : Text)

/-- A signed word as text. -/
def Text.ofInt32 (n : Int32) : Text := Text.ofInt n.toInt

/-- An unsigned word as text. -/
def Text.ofUInt32 (n : UInt32) : Text := Text.ofNat n.toNat

/-- A word as 32 binary digits, announced as such. -/
def Text.ofBits (n : UInt32) : Text :=
  "0b".toList ++ Text.padLeft 32 '0' (Nat.toDigits 2 n.toNat)

/-- A binary64 number as text. -/
def Text.ofFloat (f : Float) : Text := (Binary64.ofFloat f).render

namespace Value

/-- Reads a text in a domain. -/
def parse (domain : Domain) (t : Text) : Value :=
  match domain with
  | .number .signed => signed (Numeral.toInt32 t)
  | .number .unsigned | .logic => unsigned (Numeral.toBits t)
  | .number .decimal => decimal (Decimal.parseResult t)
  | .number .float => float (Numeral.toFloat t)
  | .none | .text => text t

/-- The value of an empty text. -/
def zero (domain : Domain) : Value := parse domain []

/-- A value as text. -/
def render : Value → Text
  | signed n => Text.ofInt32 n
  | unsigned n => Text.ofUInt32 n
  | decimal d => Decimal.renderResult d
  | float f => Text.ofFloat f
  | text t => t

/-- The value as a signed word. -/
def asSigned : Value → Int32
  | signed n => n
  | unsigned n => n.toInt32
  | float f => f.toInt32
  | v => Numeral.toInt32 v.render

/-- The value as an unsigned word. -/
def asUnsigned : Value → UInt32
  | signed n => n.toUInt32
  | unsigned n => n
  | float f => Numeral.truncate f
  | v => Numeral.toBits v.render

/-- The value as a binary64 number. -/
def asFloat : Value → Float
  | signed n => Float.ofInt n.toInt
  | unsigned n => Float.ofNat n.toNat
  | float f => f
  | v => Numeral.toFloat v.render

/-- The value as a decimal. -/
def asDecimal : Value → Option Decimal
  | decimal d => d
  | signed n => Decimal.ofInt n.toInt
  | unsigned n => Decimal.ofInt n.toNat
  | v => Decimal.parseResult v.render

/-- Whether two values are of one kind and equal in it. A NaN equals nothing. -/
def same : Value → Value → Bool
  | signed a, signed b => a = b
  | unsigned a, unsigned b => a = b
  | decimal (some a), decimal (some b) => a.compare b = .eq
  | decimal none, decimal none => true
  | float a, float b => a == b
  | text a, text b => a = b
  | _, _ => false

end Value

end LineScript
