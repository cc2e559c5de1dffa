import LineScript.Board.Heap
/-!
# Arrays

A table of arrays of one-, two- or four-byte elements. Their elements are
packed into heap words, the first element in the lowest bytes, so that an
array of bytes takes a quarter of the words. An entry of the table owns its
block: replacing or freeing the entry gives the block back.
-/

namespace LineScript

/-- How wide the elements of an array are. -/
inductive Width where
  | byte | half | word
deriving DecidableEq

namespace Width

/-- The width of so many bytes. -/
def ofBytes? : Nat → Option Width
  | 1 => some byte
  | 2 => some half
  | 4 => some word
  | _ => none

/-- The bytes of an element. -/
def bytes : Width → Nat
  | byte => 1
  | half => 2
  | word => 4

/-- The elements in a heap word. -/
def perWord : Width → Nat
  | byte => 4
  | half => 2
  | word => 1

/-- How many values an element can have. -/
def base (w : Width) : Nat := 256 ^ w.bytes

/-- How many heap words some elements take. -/
def wordsFor (w : Width) (elements : Nat) : Nat := (elements + w.perWord - 1) / w.perWord

/-- A heap word of the given elements, the first in the lowest bytes. -/
def packWord (w : Width) (elements : List UInt32) : UInt32 :=
  (elements.foldr (fun v word => v.toNat % w.base + w.base * word) 0).toUInt32

/-- So many heap words, each of the next few elements. -/
def packWords (w : Width) : (words : Nat) → List UInt32 → List UInt32
  | 0, _ => []
  | n + 1, elements =>
    w.packWord (elements.take w.perWord) :: packWords w n (elements.drop w.perWord)

/-- The heap words of some elements. -/
def pack (w : Width) (elements : List UInt32) : List UInt32 :=
  w.packWords (w.wordsFor elements.length) elements

/-- The elements of one heap word. -/
def unpackWord (w : Width) (word : UInt32) : List UInt32 :=
  (List.range w.perWord).map fun i => (word.toNat / w.base ^ i % w.base).toUInt32

/-- The first `count` elements of some heap words. -/
def unpack (w : Width) (words : List UInt32) (count : Nat) : List UInt32 :=
  (words.flatMap w.unpackWord).take count

end Width

/-- An array: its block, and the width and number of its elements. -/
structure ArrayEntry where
  handle : Handle
  width : Width
  size : Nat
deriving DecidableEq

/-- The table of arrays; `none` is an empty entry. -/
structure ArrayTable where
  entries : Array (Option ArrayEntry)
deriving DecidableEq

namespace ArrayTable

/-- A table of empty entries. -/
def new (capacity : Nat) : ArrayTable := { entries := Array.replicate capacity none }

variable (t : ArrayTable)

/-- How many entries there are. -/
def capacity : Nat := t.entries.size

/-- How many entries hold an array. -/
def inUse : Nat := t.entries.countP (·.isSome)

/-- The array of an entry. -/
def get? (id : Nat) : Option ArrayEntry := t.entries.getD id none

/-- Empties an entry and gives its block back. Says whether it held an array. -/
def free (heap : Heap) (id : Nat) : Bool × ArrayTable × Heap :=
  match t.get? id with
  | some entry => (true, { entries := t.entries.setIfInBounds id none }, heap.release entry.handle)
  | none => (false, t, heap)

/-- Empties every entry. -/
def freeAll (heap : Heap) : ArrayTable × Heap :=
  (List.range t.capacity).foldl (fun (t, heap) id => (t.free heap id).2) (t, heap)

/-- Packs elements into a new block. -/
def allocate (heap : Heap) (width : Width) (elements : List UInt32) : Except Fault (Handle × Heap) := do
  let words := width.pack elements
  let (handle, heap) ← heap.alloc (max words.length 1)
  let heap ← heap.store handle 0 words
  return (handle, heap)

/-- Replaces an entry by a new array. The old array is given back before the
new one is allocated, and is gone also when there is no room for that. -/
def create (heap : Heap) (id : Nat) (elements : List UInt32) (width : Nat) :
    Option Fault × ArrayTable × Heap :=
  if t.capacity ≤ id then (some .badArray, t, heap)
  else
    match Width.ofBytes? width with
    | none => (some .badWidth, t, heap)
    | some width =>
      let (_, t, heap) := t.free heap id
      match allocate heap width elements with
      | .error fault => (some fault, t, heap)
      | .ok (handle, heap) =>
        let entry : ArrayEntry := { handle, width, size := elements.length }
        (none, { entries := t.entries.setIfInBounds id (some entry) }, heap)

/-- The elements of an array. -/
def elements (heap : Heap) (id : Nat) : Except Fault (List UInt32) :=
  match t.get? id with
  | none => .error .badArray
  | some entry => do
    let needed := entry.width.wordsFor entry.size
    let count ← heap.count entry.handle
    if count < needed then throw .arrayTooShort
    let words ← heap.load entry.handle 0 needed
    return entry.width.unpack words entry.size

end ArrayTable

end LineScript
