import JarRename.Bytes.Word

/-!
**Checksums.**

Every entry of a jar is stored with a cyclic redundancy check of 32 bits, computed bit by bit with the least
significant bit first.

* `Jar.checksum`: the checksum of bytes.
-/

namespace JarRename.Jar

/-- The divisor of the checksum, as its bits from the least significant one on. -/
def checksumDivisor : UInt32 := 0xEDB88320

/-- The remainder after one bit more. -/
def checksumBit (remainder : UInt32) : UInt32 :=
  if remainder % 2 = 1 then (remainder / 2) ^^^ checksumDivisor else remainder / 2

/-- The remainder after several bits more. -/
def checksumBits : Nat → UInt32 → UInt32
  | 0, remainder => remainder
  | count + 1, remainder => checksumBits count (checksumBit remainder)

/-- The remainder after one byte more. -/
def checksumByte (remainder : UInt32) (byte : UInt8) : UInt32 :=
  checksumBits 8 (remainder ^^^ byte.toUInt32)

/-- The checksum of bytes. -/
def checksum (bytes : Bytes) : UInt32 :=
  (bytes.foldl checksumByte 0xFFFFFFFF) ^^^ 0xFFFFFFFF

end JarRename.Jar
