/-!
# CRC-32

The checksum of the EEPROM image: the reflected CRC-32 with the polynomial
`0x04C11DB7`, a register that starts as all ones, and all bits inverted at
the end.
-/

namespace LineScript

namespace Crc32

/-- The polynomial, lowest power in the highest bit. -/
def polynomial : UInt32 := 0xEDB88320

/-- Shifts the register by one bit. -/
def shift (register : UInt32) : UInt32 :=
  if register &&& 1 = 1 then (register >>> 1) ^^^ polynomial else register >>> 1

/-- Shifts the register by several bits. -/
def shifts : Nat → UInt32 → UInt32
  | 0, register => register
  | n + 1, register => shifts n (shift register)

/-- Takes one byte into the register. -/
def update (register : UInt32) (byte : UInt8) : UInt32 := shifts 8 (register ^^^ byte.toUInt32)

/-- The checksum of some bytes. -/
def checksum (bytes : List UInt8) : UInt32 := ~~~ bytes.foldl update 0xFFFFFFFF

end Crc32

end LineScript
