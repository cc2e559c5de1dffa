import LineScript.Text
/-!
# UTF-8

Characters and their bytes. `encode` writes the one to four bytes of each
character. Reading is by *units*: a unit is either a whole character or a
maximal ill-formed part, the longest run of bytes that begins some
character's encoding without completing one (a single byte if it begins
none). `decode` keeps the characters before the first ill-formed part and
`lossy` writes U+FFFD for each such part.

The second byte is what tells an overlong form, a surrogate or a value past
U+10FFFF, so `Lead` carries its bounds: E0 wants A0–BF, ED wants 80–9F, F0
wants 90–BF, F4 wants 80–8F, and every other lead 80–BF.
-/

namespace LineScript

namespace Utf8

/-! ## Writing -/

/-- The bytes of one character. -/
def encodeChar (c : Char) : List UInt8 :=
  let n := c.toNat
  if n < 0x80 then [n.toUInt8]
  else if n < 0x800 then [(0xC0 + n / 64).toUInt8, (0x80 + n % 64).toUInt8]
  else if n < 0x10000 then
    [(0xE0 + n / 4096).toUInt8, (0x80 + n / 64 % 64).toUInt8, (0x80 + n % 64).toUInt8]
  else
    [(0xF0 + n / 262144).toUInt8, (0x80 + n / 4096 % 64).toUInt8,
      (0x80 + n / 64 % 64).toUInt8, (0x80 + n % 64).toUInt8]

/-- The bytes of a text. -/
def encode (t : Text) : List UInt8 := t.flatMap encodeChar

/-- How many bytes a text takes. -/
def size (t : Text) : Nat := (encode t).length

/-- The longest leading part of the text that takes at most `n` bytes. -/
def fit : Nat → Text → Text
  | _, [] => []
  | n, c :: t =>
    if (encodeChar c).length ≤ n then c :: fit (n - (encodeChar c).length) t else []

/-! ## Reading -/

/-- A byte that continues a character: its top bits are `10`. -/
def isContinuation (b : UInt8) : Bool := 0x80 ≤ b && b < 0xC0

/-- What a first byte announces: how many bytes follow, the bits it carries
itself, and the bounds of the byte after it. -/
structure Lead where
  more : Nat
  bits : Nat
  low : UInt8 := 0x80
  high : UInt8 := 0xBF

/-- The lead a byte is, unless no character begins with it. -/
def Lead.ofByte? (b : UInt8) : Option Lead :=
  if b < 0x80 then some { more := 0, bits := b.toNat }
  else if b < 0xC2 then none
  else if b < 0xE0 then some { more := 1, bits := b.toNat - 0xC0 }
  else if b = 0xE0 then some { more := 2, bits := 0, low := 0xA0 }
  else if b = 0xED then some { more := 2, bits := 0xD, high := 0x9F }
  else if b < 0xF0 then some { more := 2, bits := b.toNat - 0xE0 }
  else if b = 0xF0 then some { more := 3, bits := 0, low := 0x90 }
  else if b < 0xF4 then some { more := 3, bits := b.toNat - 0xF0 }
  else if b = 0xF4 then some { more := 3, bits := 4, high := 0x8F }
  else none

/-- Adds the six bits of each following byte; the number is how many of them
were taken, also when one is missing or out of bounds. -/
def gather (more bits : Nat) (low high : UInt8) (taken : Nat) : List UInt8 → Option Char × Nat
  | [] => if more = 0 then (some (Char.ofNat bits), taken) else (none, taken)
  | b :: rest =>
    if more = 0 then (some (Char.ofNat bits), taken)
    else if low ≤ b && b ≤ high then
      gather (more - 1) (bits * 64 + (b.toNat - 0x80)) 0x80 0xBF (taken + 1) rest
    else (none, taken)

/-- The unit that begins with `b`: its character, or `none` if it is
ill-formed, and how many of the bytes after `b` belong to it. -/
def unitAt (b : UInt8) (rest : List UInt8) : Option Char × Nat :=
  match Lead.ofByte? b with
  | none => (none, 0)
  | some l => gather l.more l.bits l.low l.high 0 rest

/-- The units of the bytes after the first `skip` of them. -/
def unitsFrom : Nat → List UInt8 → List (Option Char)
  | _, [] => []
  | skip + 1, _ :: rest => unitsFrom skip rest
  | 0, b :: rest =>
    match unitAt b rest with
    | (c, more) => c :: unitsFrom more rest

/-- The units of some bytes, in order. -/
def units (bytes : List UInt8) : List (Option Char) := unitsFrom 0 bytes

/-- The characters before the first ill-formed part. -/
def decode (bytes : List UInt8) : Text :=
  ((units bytes).takeWhile Option.isSome).filterMap id

/-- All characters, with U+FFFD for each ill-formed part. -/
def lossy (bytes : List UInt8) : Text := (units bytes).map (·.getD '\uFFFD')

end Utf8

end LineScript
