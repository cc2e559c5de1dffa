/-!
# Domains

How a command reads its operands. Four domains are kinds of number, and
conditions also compare texts; `logic` reads unsigned words that are written
back in binary; `none` is for commands that only use their operands to point
at lines.
-/

namespace LineScript

/-- A kind of number to calculate with. -/
inductive Number where
  | signed | unsigned | decimal | float
deriving DecidableEq

/-- Every kind of number. -/
def Number.all : List Number := [.signed, .unsigned, .decimal, .float]

/-- What a condition compares: numbers of one kind, or texts. -/
inductive Comparand where
  | number (kind : Number)
  | text
deriving DecidableEq

/-- Everything a condition can compare. -/
def Comparand.all : List Comparand := Number.all.map .number ++ [.text]

/-- How operands are read. -/
inductive Domain where
  | none
  | number (kind : Number)
  | logic
  | text
deriving DecidableEq

/-- The domain in which the sides of a condition are read. -/
def Comparand.domain : Comparand → Domain
  | number kind => .number kind
  | text => .text

end LineScript
