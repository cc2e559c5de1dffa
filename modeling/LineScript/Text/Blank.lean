import LineScript.Text
/-!
# Blanks

The characters with the Unicode property White_Space, and what is done with
them: a text is trimmed of them at both ends before it is taken as an editor
command or as a number of a setting.
-/

namespace LineScript

namespace Text

/-- The ranges of blanks. -/
def blankRanges : List (Nat × Nat) :=
  [(0x09, 0x0D), (0x20, 0x20), (0x85, 0x85), (0xA0, 0xA0), (0x1680, 0x1680), (0x2000, 0x200A),
    (0x2028, 0x2029), (0x202F, 0x202F), (0x205F, 0x205F), (0x3000, 0x3000)]

/-- Whether a character is a blank. -/
def isBlank (c : Char) : Bool := blankRanges.any fun (low, high) => low ≤ c.toNat && c.toNat ≤ high

/-- The text without the blanks at its ends. -/
def trim (t : Text) : Text := (((t.dropWhile isBlank).reverse).dropWhile isBlank).reverse

/-- The natural number a text writes, below `2 ^ 64`: digits only, after an
optional plus sign. -/
def toNat? (t : Text) : Option Nat :=
  let digits := match t with
    | '+' :: rest => rest
    | _ => t
  if digits.isEmpty || !digits.all Char.isDigit then none
  else
    let n := Nat.ofDigitChars 10 digits 0
    if n < 2 ^ 64 then some n else none

end Text

end LineScript
