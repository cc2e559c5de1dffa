import LineScript.Fault
/-!
# The heap

Blocks of 32-bit words under handles, with a budget for all of them together.
Handles are numbers counted up from 1; after the last one the count starts
again, and zero is never issued.
-/

namespace LineScript

/-- The name of a block. -/
abbrev Handle := UInt32

/-- The blocks in use, the last handle issued, and how many words are used up. -/
structure Heap where
  blocks : List (Handle × List UInt32) := []
  last : Handle := 0
  used : Nat := 0
deriving DecidableEq

namespace Heap

/-- The words there are. -/
def capacity : Nat := 16384

variable (heap : Heap)

/-- How many blocks are in use. -/
def live : Nat := heap.blocks.length

/-- The words of a block. -/
def block (h : Handle) : Except Fault (List UInt32) :=
  match heap.blocks.lookup h with
  | some words => .ok words
  | none => .error .badHandle

/-- Whether a block is in use. -/
def contains (h : Handle) : Bool := (heap.blocks.lookup h).isSome

/-- Puts a block under a handle, in place of any block that is there. -/
def set (h : Handle) (words : List UInt32) : Heap :=
  { heap with blocks := (h, words) :: heap.blocks.filter (·.1 ≠ h) }

/-- The handle issued after another. -/
def nextHandle (h : Handle) : Handle := if h + 1 = 0 then 1 else h + 1

/-- Takes a block of zeros into use. -/
def alloc (words : Nat) : Except Fault (Handle × Heap) :=
  if capacity < heap.used + words then .error .heapFull
  else
    let h := nextHandle heap.last
    .ok (h, { heap.set h (List.replicate words 0) with last := h, used := heap.used + words })

/-- Gives a block back. A handle without a block is ignored. -/
def release (h : Handle) : Heap :=
  match heap.blocks.lookup h with
  | some words =>
    { heap with
      blocks := heap.blocks.filter (·.1 ≠ h)
      used := heap.used - words.length }
  | none => heap

/-- Sets every word of a block. -/
def fill (h : Handle) (word : UInt32) : Except Fault Heap := do
  let words ← heap.block h
  return heap.set h (words.map fun _ => word)

/-- How many words a block has. -/
def count (h : Handle) : Except Fault Nat := (heap.block h).map List.length

/-- Whether a span lies in a block of `size` words. -/
def checkSpan (size offset count : Nat) : Except Fault Unit :=
  if 2 ^ 64 ≤ offset + count then .error .spanTooLong
  else if size < offset + count then .error .outsideBlock
  else .ok ()

/-- Writes words into a block. -/
def store (h : Handle) (offset : Nat) (words : List UInt32) : Except Fault Heap := do
  let old ← heap.block h
  checkSpan old.length offset words.length
  return heap.set h (old.take offset ++ words ++ old.drop (offset + words.length))

/-- Reads words from a block. -/
def load (h : Handle) (offset count : Nat) : Except Fault (List UInt32) := do
  let words ← heap.block h
  checkSpan words.length offset count
  return (words.drop offset).take count

end Heap

end LineScript
