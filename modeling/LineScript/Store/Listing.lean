import LineScript.Store
import LineScript.Terminal
import LineScript.Text.Quoted
/-!
# Listings

The view of the store that a user sees: every line that is not empty, with
its number, and without the input line. `render` is the plain form and
`decorate` the one for a terminal, which paints numbers and labels.
-/

namespace LineScript

/-- Numbered lines, by increasing number. -/
structure Listing where
  lines : List (Nat × Text)
deriving DecidableEq

/-- The listing of a store. -/
def Store.listing (s : Store) : Listing :=
  { lines := (List.range s.inputSlot).filterMap fun index =>
      let t := s.line index
      if t.isEmpty then none else some (index, t) }

namespace Listing

variable (l : Listing)

/-- How many lines are listed. -/
def size : Nat := l.lines.length

/-- The text of a listed line. -/
def line? (number : Nat) : Option Text := l.lines.lookup number

/-- A line number, flush right in three columns. -/
def number (n : Nat) : Text := Text.padLeft 3 ' ' (Text.ofNat n)

/-- One line of text per listed line, its number first. -/
def render : Text := l.lines.flatMap fun (n, t) => number n ++ ' ' :: t ++ ['\n']

/-! ## Decoration -/

/-- A line with its label, dot included, painted. -/
def decorateLabel (style : Style) (t : Text) : Text :=
  let body := t.dropSpaces
  if body.head? = some '.' then
    t.takeWhile (· = ' ') ++ style.label (body.takeWhile (· ≠ ' ')) ++ body.dropWhile (· ≠ ' ')
  else t

/-- The listing with its numbers and labels painted. -/
def decorate (style : Style) : Text :=
  l.lines.flatMap fun (n, t) =>
    style.number (number n) ++ ' ' :: decorateLabel style t ++ ['\n']

end Listing

/-! ## Contents -/

/-- Every line that is not empty, the input line included, as one line of text. -/
def Store.contents (s : Store) : Text :=
  let entries := (List.range s.size).filterMap fun index =>
    let t := s.line index
    if t.isEmpty then none else some (Text.ofNat index ++ ": ".toList ++ t.quote)
  '\x7b' :: ", ".toList.intercalate entries ++ ['\x7d']

end LineScript
