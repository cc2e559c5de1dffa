import LineScript.Fault
import LineScript.Text.Blank
/-!
# Configuration

The dimensions of the interpreter. They are fixed for the life of a machine;
`validate` says which are possible.
-/

namespace LineScript

/-- The dimensions of a machine, and the seed of its random numbers. -/
structure Config where
  /-- Line slots, slot 0 and the input line included. -/
  lines : Nat := 128
  /-- Bytes of a slot, the closing zero included. -/
  row : Nat := 64
  /-- Entries of the label table. -/
  labels : Nat := 32
  /-- Bytes of a label name that count. -/
  labelLen : Nat := 8
  /-- Entries of the link stack. -/
  linkDepth : Nat := 16
  /-- Entries of the array table. -/
  arrays : Nat := 16
  /-- Operands kept per instruction. -/
  args : Nat := 8
  /-- The seed, if it is fixed. -/
  seed : Option UInt64 := none
deriving DecidableEq

namespace Config

variable (c : Config)

/-- The dimension that is out of bounds, if one is. -/
def badDimension? : Option Text :=
  if c.lines < 4 ∨ 65535 < c.lines then some "LINES".toList
  else if c.row < 8 ∨ 256 < c.row then some "ROW".toList
  else if c.arrays = 0 ∨ 16 < c.arrays then some "ARRAYS".toList
  else if c.linkDepth = 0 ∨ c.labelLen = 0 then some "LINK DEPTH".toList
  else if c.args < 8 then some "ARGUMENTS".toList
  else none

/-- Passes a configuration whose dimensions are all within bounds. -/
def validate : Except Fault Config :=
  match c.badDimension? with
  | some name => .error (.badDimension name)
  | none => .ok c

/-- Where the scratch stack is empty: two lines below the last one there is. -/
def scratchFloor : Nat := c.lines - 2

/-! ## Settings -/

/-- The number of a setting, or the default if it is not set. -/
def setting {α : Type} (default : α) (ofNat : Nat → α) : Option Text → Except Fault α
  | none => .ok default
  | some t =>
    match t.trim.toNat? with
    | some n => .ok (ofNat n)
    | none => .error .badSetting

/-- The configuration that three optional settings describe. -/
def ofSettings (lines row seed : Option Text) : Except Fault Config := do
  let default : Config := {}
  let lines ← setting default.lines id lines
  let row ← setting default.row id row
  let seed ← setting default.seed (fun n => some n.toUInt64) seed
  validate { default with lines, row, seed }

end Config

end LineScript
