import LineScript.Board.Crc32
import LineScript.Fault
/-!
# EEPROM chips

Eight chips of 32 KiB, read and written by chip number and address. They may
be kept in an image file, which holds the chips one after another and a
CRC-32 of them in little-endian order. After every write the whole image is
saved; an image of another length or with another checksum is ignored when it
is opened, and the chips are blank then.

For tests of a script's behaviour under failure, a number of transfers can be
set after which no chip answers any more.
-/

namespace LineScript

/-- The bytes of one chip. -/
abbrev Chip := Array UInt8

/-- How many bytes a chip has. -/
def chipSize : Nat := 32768

/-- How many chips there are. -/
def chipCount : Nat := 8

namespace Chip

/-- A chip of zeros. -/
def blank : Chip := Array.replicate chipSize 0

/-- The chip with some bytes replaced. -/
def patch (c : Chip) (address : Nat) (bytes : List UInt8) : Chip :=
  c.extract 0 address ++ bytes.toArray ++ c.extract (address + bytes.length) c.size

/-- Some bytes of the chip. -/
def bytesAt (c : Chip) (address count : Nat) : List UInt8 :=
  (c.extract address (address + count)).toList

end Chip

/-! ## Images -/

namespace Image

/-- The four bytes of a word, lowest first. -/
def wordBytes (n : UInt32) : List UInt8 :=
  [n.toUInt8, (n >>> 8).toUInt8, (n >>> 16).toUInt8, (n >>> 24).toUInt8]

/-- The bytes of an image: the chips and their checksum. -/
def encode (chips : Array Chip) : List UInt8 :=
  let data := chips.toList.flatMap Array.toList
  data ++ wordBytes (Crc32.checksum data)

/-- The next `count` chips of some bytes. -/
def split : (count : Nat) → List UInt8 → List Chip
  | 0, _ => []
  | count + 1, bytes => (bytes.take chipSize).toArray :: split count (bytes.drop chipSize)

/-- The chips of an image, if its length and its checksum are right. -/
def decode? (bytes : List UInt8) : Option (Array Chip) :=
  let size := chipCount * chipSize
  if bytes.length ≠ size + 4 then none
  else
    let data := bytes.take size
    if bytes.drop size = wordBytes (Crc32.checksum data) then some (split chipCount data).toArray
    else none

end Image

/-- What is found at the place of an image file. -/
inductive ImageFile where
  | absent
  | bytes (data : List UInt8)
  /-- Something that can be neither read nor written as a file. -/
  | blocked

namespace ImageFile

/-- The bytes read. -/
def read? : ImageFile → Option (List UInt8)
  | bytes data => some data
  | _ => none

/-- Writes the file. -/
def write? (f : ImageFile) (data : List UInt8) : Option ImageFile :=
  match f with
  | blocked => none
  | _ => some (bytes data)

end ImageFile

/-! ## Chips -/

/-- The chips, the file they are kept in, and how many more transfers succeed;
`none` is no file, and no end of transfers. -/
structure Eeprom where
  chips : Array Chip
  file : Option ImageFile := none
  budget : Option Nat := none

namespace Eeprom

/-- Blank chips that are not kept in a file. -/
def blank : Eeprom := { chips := Array.replicate chipCount Chip.blank }

/-- The chips kept in a file. -/
def openFile (f : ImageFile) : Eeprom :=
  { chips := (f.read?.bind Image.decode?).getD blank.chips, file := some f }

variable (e : Eeprom)

/-- The bytes of a chip as they are; none if there are no such bytes. This is
no transfer. -/
def peek (chip address count : Nat) : List UInt8 :=
  if address + count ≤ chipSize then ((e.chips[chip]?).map (·.bytesAt address count)).getD []
  else []

/-- Begins a transfer: the chip must be there, the address in it, and a
transfer left. -/
def access (chip address count : Nat) : Except Fault Eeprom :=
  if chipCount ≤ chip then .error .noAcknowledge
  else if chipSize < address + count then .error .badAddress
  else
    match e.budget with
    | some 0 => .error .noAcknowledge
    | some (n + 1) => .ok { e with budget := some n }
    | none => .ok e

/-- Saves the image. -/
def save : Option Fault × Eeprom :=
  match e.file with
  | none => (none, e)
  | some f =>
    match f.write? (Image.encode e.chips) with
    | some f => (none, { e with file := some f })
    | none => (some .imageNotSaved, e)

/-- Writes bytes to a chip and saves the image. If only the saving fails, the
chip has the bytes nevertheless. -/
def write (chip address : Nat) (bytes : List UInt8) : Option Fault × Eeprom :=
  match e.access chip address bytes.length with
  | .error fault => (some fault, e)
  | .ok e => save { e with chips := e.chips.modify chip (·.patch address bytes) }

/-- Reads bytes from a chip. -/
def read (chip address count : Nat) : Except Fault (List UInt8 × Eeprom) := do
  let e ← e.access chip address count
  return (e.peek chip address count, e)

end Eeprom

end LineScript
