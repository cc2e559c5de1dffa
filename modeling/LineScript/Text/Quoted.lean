import LineScript.Text.Unprintable
import LineScript.Text
/-!
# Quoted text

A text between double quotes, on one line and readable: quotes, backslashes
and the usual control characters have short escapes, and every other
character that would not show is written by its number.
-/

namespace LineScript

namespace Text

/-- The number of a character, in hexadecimal between braces. -/
def numberEscape (c : Char) : Text := "\\u\x7b".toList ++ Nat.toDigits 16 c.toNat ++ ['\x7d']

/-- A character as it stands in quoted text. -/
def escape (c : Char) : Text :=
  match c with
  | '\x00' => "\\0".toList
  | '\t' => "\\t".toList
  | '\n' => "\\n".toList
  | '\r' => "\\r".toList
  | '"' => "\\\"".toList
  | '\\' => "\\\\".toList
  | _ => if isUnprintable c then numberEscape c else [c]

/-- A text between quotes. -/
def quote (t : Text) : Text := '"' :: t.flatMap escape ++ ['"']

end Text

end LineScript
