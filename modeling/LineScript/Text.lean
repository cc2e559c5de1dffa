import LineScript.Power
/-!
# Text

Text is a list of characters. This module holds what every other one does
with text: cutting it at spaces, and writing whole numbers and fields of a
fixed width. The only separator the language knows is the space U+0020;
tabs and other blanks are ordinary characters of a word.
-/

namespace LineScript

/-- A text, first character first. -/
abbrev Text := List Char

namespace Text

/-- The text without its leading spaces. -/
def dropSpaces (t : Text) : Text := t.dropWhile (· = ' ')

/-- The maximal runs of characters other than the space, in order. -/
def words (t : Text) : List Text := (t.splitOn ' ').filter (!·.isEmpty)

/-- The first word, and everything after it with the space in front. -/
def keyword (t : Text) : Text × Text :=
  let body := t.dropSpaces
  (body.takeWhile (· ≠ ' '), body.dropWhile (· ≠ ' '))

/-! ## Numbers as text -/

/-- Decimal digits of a natural number, without leading zeros. -/
def ofNat (n : Nat) : Text := Nat.toDigits 10 n

/-- Decimal digits of an integer, with a minus sign when it is negative. -/
def ofInt : Int → Text
  | .ofNat n => ofNat n
  | .negSucc n => '-' :: ofNat (n + 1)

/-- The text set flush right in a field of `width` characters. -/
def padLeft (width : Nat) (fill : Char) (t : Text) : Text :=
  List.replicate (width - t.length) fill ++ t

end Text

end LineScript
