import LineScript.Text
/-!
# The link stack

A bounded stack of line numbers, shared by calls and loops. A push on a full
stack replaces the newest entry, and a pop from an empty one changes nothing.
-/

namespace LineScript

/-- A stack of at most `capacity` line numbers, the newest first. -/
structure LinkStack where
  capacity : Nat
  entries : List Nat := []
deriving DecidableEq

namespace LinkStack

variable (s : LinkStack)

/-- The same stack without its entries. -/
def clear : LinkStack := { s with entries := [] }

/-- How many entries there are. -/
def size : Nat := s.entries.length

/-- Whether a push would replace an entry. -/
def isFull : Bool := s.capacity ≤ s.size

/-- The newest entry. -/
def top? : Option Nat := s.entries.head?

/-- Puts a line on top, in place of the newest entry if the stack is full. -/
def push (line : Nat) : LinkStack :=
  if s.isFull then
    match s.entries with
    | [] => s
    | _ :: older => { s with entries := line :: older }
  else { s with entries := line :: s.entries }

/-- Takes the newest entry off. -/
def pop : Option Nat × LinkStack :=
  match s.entries with
  | [] => (none, s)
  | line :: older => (some line, { s with entries := older })

/-- The entries in brackets, oldest first. -/
def render : Text := '[' :: ", ".toList.intercalate (s.entries.reverse.map Text.ofNat) ++ [']']

end LinkStack

end LineScript
