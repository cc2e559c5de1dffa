import LineScript.Text
/-!
# What reaches the terminal

Texts are printed with their escapes expanded. Words can be drawn as a
picture, one row per word and one character per bit, and the cursor is moved
by a control sequence. How numbers and labels of a listing are painted is for
the terminal to say.
-/

namespace LineScript

namespace Terminal

/-- Expands `\n`, `\s` and `\e` to a line feed, a space and an escape
character. A backslash before anything else stands for itself. -/
def expand : Text → Text
  | '\\' :: 'n' :: t => '\n' :: expand t
  | '\\' :: 's' :: t => ' ' :: expand t
  | '\\' :: 'e' :: t => '\x1b' :: expand t
  | '\\' :: c :: t => '\\' :: c :: expand t
  | c :: t => c :: expand t
  | [] => []

/-- The lowest `bits` bits of a word, highest first; ones are drawn. -/
def pictureRow (bits : Nat) (word : UInt32) : Text :=
  ((List.range bits).reverse.map fun i => if word.toNat.testBit i then '#' else '.') ++ ['\n']

/-- The rows of some words. -/
def picture (bits : Nat) (words : List UInt32) : Text := words.flatMap (pictureRow bits)

/-- Moves the cursor. -/
def moveTo (column row : UInt32) : Text :=
  "\x1b[".toList ++ Text.ofNat row.toNat ++ ';' :: Text.ofNat column.toNat ++ ['H']

end Terminal

/-- How a terminal paints the line numbers and the labels of a listing. -/
structure Style where
  number : Text → Text
  label : Text → Text

/-- Dim numbers and bold labels, by control sequences. -/
def Style.ansi : Style where
  number t := "\x1b[2m".toList ++ t ++ "\x1b[0m".toList
  label t := "\x1b[1m".toList ++ t ++ "\x1b[0m".toList

end LineScript
