import LineScript.Fault
import LineScript.Text.Utf8
/-!
# The line store

The store is both the program and its memory: a row of slots, each as wide as
every other. A slot holds at most `row - 1` bytes of UTF-8 text and zeros up
to its end, so the text of a slot ends at its first zero byte. Slot 0 is
reserved and the last slot is the input line.

Every operation here rebuilds the whole slot it changes, zeros included:
nothing of an older, longer text stays behind.
-/

namespace LineScript

/-- The bytes of one slot. -/
abbrev Slot := List UInt8

namespace Slot

/-- The bytes followed by zeros up to the width of a slot. -/
def pad (row : Nat) (bytes : List UInt8) : Slot := bytes ++ List.replicate (row - bytes.length) 0

/-- A slot of zeros. -/
def blank (row : Nat) : Slot := List.replicate row 0

/-- The bytes before the first zero. -/
def content (s : Slot) : List UInt8 := s.takeWhile (· ≠ 0)

/-- Whether a slot begins with a zero. -/
def isBlank (s : Slot) : Bool := s.headD 0 = 0

/-- The text of a slot. -/
def text (s : Slot) : Text := Utf8.decode s.content

/-- The slot that holds a text: cut before its first NUL, and then to the
longest leading part of at most `row - 1` bytes. -/
def ofText (row : Nat) (t : Text) : Slot :=
  pad row (Utf8.encode (Utf8.fit (row - 1) (t.takeWhile (· ≠ '\x00'))))

/-- The text some bytes stand for when they are written to a slot: what comes
before the first zero byte, ill-formed parts replaced. -/
def textOfBytes (bytes : List UInt8) : Text := Utf8.lossy (bytes.takeWhile (· ≠ 0))

end Slot

/-- A store of slots, `row` bytes each. -/
structure Store where
  row : Nat
  slots : Array Slot

namespace Store

/-- A store of `lines` blank slots. Slots without width are none at all. -/
def new (lines row : Nat) : Store :=
  { row, slots := if row = 0 then #[] else Array.replicate lines (Slot.blank row) }

variable (s : Store)

/-- How many slots there are. -/
def size : Nat := s.slots.size

/-- The last slot, which receives what is entered. -/
def inputSlot : Nat := s.size - 1

/-! ## Reading -/

/-- All bytes of a slot. -/
def slot (index : Nat) : Except Fault Slot :=
  match s.slots[index]? with
  | some slot => .ok slot
  | none => .error (.noSuchLine index)

/-- The text of a line. -/
def read (index : Nat) : Except Fault Text := (s.slot index).map Slot.text

/-- The text of a line; a line that does not exist reads as empty. -/
def line (index : Nat) : Text := (s.slots[index]?.map Slot.text).getD []

/-- Whether a line is empty. A line that does not exist is. -/
def isBlank (index : Nat) : Bool :=
  match s.slots[index]? with
  | some slot => slot.isBlank
  | none => true

/-- How many lines without a gap are not empty, from one line on. -/
def filledFrom (start : Nat) : Nat :=
  ((s.slots.toList.drop start).takeWhile fun slot => !slot.isBlank).length

/-! ## Writing

Every operation says which fault it ended in, if it did, and gives the store as
it is then. -/

/-- Replaces a whole slot. -/
def put (index : Nat) (slot : Slot) : Option Fault × Store :=
  if index < s.size then (none, { s with slots := s.slots.setIfInBounds index slot })
  else (some (.noSuchLine index), s)

/-- Writes a text to a line. -/
def write (index : Nat) (t : Text) : Option Fault × Store := s.put index (Slot.ofText s.row t)

/-- Writes bytes to a line, as the text they stand for. -/
def writeBytes (index : Nat) (bytes : List UInt8) : Option Fault × Store :=
  s.write index (Slot.textOfBytes bytes)

/-- Writes a text to a line if there is such a line. -/
def writeIfPresent (index : Nat) (t : Text) : Store :=
  { s with slots := s.slots.setIfInBounds index (Slot.ofText s.row t) }

/-- Writing to a line that exists succeeds. -/
theorem write_of_lt {index : Nat} (t : Text) (h : index < s.size) :
    s.write index t = (none, s.writeIfPresent index t) := by
  simp [write, put, h, writeIfPresent]

/-- Writing to a line that does not exist changes nothing. -/
theorem writeIfPresent_of_le {index : Nat} (t : Text) (h : s.size ≤ index) :
    s.writeIfPresent index t = s := by
  have outside : ¬ index < s.slots.size := Nat.not_lt.2 h
  simp [writeIfPresent, Array.setIfInBounds, outside]

/-- Whether it succeeds or not, it is a write if there is such a line. -/
theorem snd_write (index : Nat) (t : Text) : (s.write index t).2 = s.writeIfPresent index t := by
  rcases Nat.lt_or_ge index s.size with inside | outside
  · rw [s.write_of_lt t inside]
  · rw [s.writeIfPresent_of_le t outside, write, put, if_neg (Nat.not_lt.2 outside)]

/-- Empties one line. -/
def clearLine (index : Nat) : Option Fault × Store := s.write index []

/-- Empties every line. -/
def clear : Store :=
  let blank := Slot.blank s.row
  { s with slots := s.slots.map fun _ => blank }

/-! ## Moving lines -/

/-- Each line from `index` on copied to the next one, up to `last`. -/
def copyDown (index last : Nat) : Store :=
  { s with
    slots := s.slots.mapIdx fun j slot =>
      if index < j ∧ j ≤ last then s.slots[j - 1]?.getD slot else slot }

/-- Each line after `index` copied to the one before it, up to `last`. -/
def copyUp (index last : Nat) : Store :=
  { s with
    slots := s.slots.mapIdx fun j slot =>
      if index ≤ j ∧ j < last then s.slots[j + 1]?.getD slot else slot }

/-- Moves the lines from `index` on down by one, up to `last`, whose text is
lost, and leaves `index` blank. -/
def insert (index last : Nat) : Option Fault × Store :=
  if index ≤ last ∧ last < s.size then (s.copyDown index last).clearLine index
  else (some (.noSuchLine index), s)

/-- Moves the lines after `index` up by one, down to `last`, which is left
blank; the text of `index` is lost. -/
def remove (index last : Nat) : Option Fault × Store :=
  if index ≤ last ∧ last < s.size then (s.copyUp index last).clearLine last
  else (some (.noSuchLine index), s)

end Store

end LineScript
