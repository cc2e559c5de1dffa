import LineScript.Text
/-!
# Faults

What can go wrong, as a kind, the line it happened in if there is one, and a
short detail. Each cause has a name of its own here, so that the rest of the
library raises causes and never wording; `Fault.message` is the one place
that puts a fault into words.
-/

namespace LineScript

/-- The kind of a fault. -/
inductive Fault.Kind where
  | badSyntax
  | overflow
  | outOfMemory
  | undefinedLabel
  | outOfRange
  | internal
  | device
deriving DecidableEq

namespace Fault.Kind

/-- Every kind, by increasing code. -/
def all : List Kind :=
  [badSyntax, overflow, outOfMemory, undefinedLabel, outOfRange, internal, device]

/-- The number a kind is known by. -/
def code : Kind → Nat
  | badSyntax => 2
  | overflow => 6
  | outOfMemory => 7
  | undefinedLabel => 8
  | outOfRange => 9
  | internal => 51
  | device => 57

/-- The words for a kind. -/
def title : Kind → Text
  | badSyntax => "SYNTAX ERROR".toList
  | overflow => "OVERFLOW".toList
  | outOfMemory => "OUT OF MEMORY".toList
  | undefinedLabel => "UNDEFINED LABEL".toList
  | outOfRange => "OUT OF RANGE".toList
  | internal => "INTERNAL ERROR".toList
  | device => "DEVICE I/O ERROR".toList

end Fault.Kind

/-- A fault: its kind, the line it concerns and a detail (empty if none). -/
structure Fault where
  kind : Fault.Kind
  line : Option Nat := none
  detail : Text := []
deriving DecidableEq

namespace Fault

/-! ## Wording -/

/-- The title; then, if there is a line or a detail, `IN`, the line, and the
detail after a semicolon. -/
def message (f : Fault) : Text :=
  let line := match f.line with
    | some n => ' ' :: Text.ofNat n
    | none => []
  let detail := if f.detail.isEmpty then [] else "; ".toList ++ f.detail
  let suffix := line ++ detail
  if suffix.isEmpty then f.kind.title else f.kind.title ++ " IN".toList ++ suffix

/-! ## Causes -/

/-- There is no such line, or no such range of lines. -/
def noSuchLine (index : Nat) : Fault := { kind := .outOfRange, line := some index }

/-- A span of the heap ends past the largest address. -/
def spanTooLong : Fault := { kind := .outOfRange }

/-- A span of the heap ends past its block. -/
def outsideBlock : Fault := { kind := .outOfRange, detail := "HEAP".toList }

/-- The heap has no room left. -/
def heapFull : Fault := { kind := .outOfMemory }

/-- No live block has this handle. -/
def badHandle : Fault := { kind := .internal, detail := "BAD HANDLE".toList }

/-- The array table has no such entry, or it is empty. -/
def badArray : Fault := { kind := .outOfRange, detail := "ARRAY ID".toList }

/-- Array elements take one, two or four bytes. -/
def badWidth : Fault := { kind := .badSyntax, detail := "ARRAY WIDTH".toList }

/-- The block of an array is shorter than its elements. -/
def arrayTooShort : Fault := { kind := .internal, detail := "ARRAY SIZE".toList }

/-- The chip is absent or does not answer. -/
def noAcknowledge : Fault := { kind := .device, detail := "NO ACKNOWLEDGE".toList }

/-- The bytes addressed reach past the end of the chip. -/
def badAddress : Fault := { kind := .outOfRange, detail := "EEPROM ADDRESS".toList }

/-- The image file could not be written. -/
def imageNotSaved : Fault := { kind := .device, detail := "IMAGE NOT SAVED".toList }

/-- A setting is not a number. -/
def badSetting : Fault := { kind := .badSyntax, detail := "BAD ENVIRONMENT VALUE".toList }

/-- A dimension of the configuration is outside its bounds. -/
def badDimension (name : Text) : Fault := { kind := .outOfRange, detail := name }

end Fault

end LineScript
