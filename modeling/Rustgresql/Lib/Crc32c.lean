import Mathlib

/-!
# CRC-32C

The Castagnoli cyclic redundancy check in its reflected form: polynomial `0x82F63B78`, initial value
and final mask all ones. One step per bit, no table.
-/

namespace Crc32c

/-- Shift one bit out of the register. -/
def bit (r : UInt32) : UInt32 :=
  if r &&& 1 = 1 then (r >>> 1) ^^^ 0x82F63B78 else r >>> 1

/-- Absorb one byte. -/
def byte (r : UInt32) (b : UInt8) : UInt32 :=
  bit (bit (bit (bit (bit (bit (bit (bit (r ^^^ b.toUInt32))))))))

/-- Absorb a byte string. -/
def update (r : UInt32) (bs : List UInt8) : UInt32 :=
  bs.foldl byte r

/-- The checksum of a byte string. -/
def checksum (bs : List UInt8) : UInt32 :=
  update 0xFFFFFFFF bs ^^^ 0xFFFFFFFF

example : checksum [0x31, 0x32, 0x33, 0x34, 0x35, 0x36, 0x37, 0x38, 0x39] = 0xE3069283 := by
  decide +kernel

end Crc32c
