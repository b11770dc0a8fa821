/-!
**Bytes and big-endian words.**

A class file is a list of bytes whose numbers are stored with the most significant byte first.

* `word16`, `word32`, `word64`: the number that bytes stand for;
* `bytes16`, `bytes32`, `bytes64`: the bytes of a number;
* `signed`: the two's complement reading of a number.
-/

namespace JarRename

/-- A list of bytes. -/
abbrev Bytes := List UInt8

namespace Bytes

/-- The number in two bytes. -/
def word16 (a b : UInt8) : UInt16 :=
  UInt16.ofNat (a.toNat * 256 + b.toNat)

/-- The number in four bytes. -/
def word32 (a b c d : UInt8) : UInt32 :=
  UInt32.ofNat (((a.toNat * 256 + b.toNat) * 256 + c.toNat) * 256 + d.toNat)

/-- The number in eight bytes, given by its two halves. -/
def word64 (high low : UInt32) : UInt64 :=
  UInt64.ofNat (high.toNat * 4294967296 + low.toNat)

/-- The two bytes of a number. -/
def bytes16 (n : UInt16) : Bytes :=
  [UInt8.ofNat (n.toNat / 256), UInt8.ofNat (n.toNat % 256)]

/-- The four bytes of a number. -/
def bytes32 (n : UInt32) : Bytes :=
  [UInt8.ofNat (n.toNat / 16777216), UInt8.ofNat (n.toNat / 65536 % 256),
    UInt8.ofNat (n.toNat / 256 % 256), UInt8.ofNat (n.toNat % 256)]

/-- The eight bytes of a number. -/
def bytes64 (n : UInt64) : Bytes :=
  bytes32 (UInt32.ofNat (n.toNat / 4294967296)) ++ bytes32 (UInt32.ofNat (n.toNat % 4294967296))

/-- The two's complement reading of a number of `bits` bits. -/
def signed (bits n : Nat) : Int :=
  if n < Nat.pow 2 (bits - 1) then (n : Int) else (n : Int) - (Nat.pow 2 bits : Nat)

/-! ### Reading back -/

theorem word16_bytes16 (n : UInt16) :
    word16 (UInt8.ofNat (n.toNat / 256)) (UInt8.ofNat (n.toNat % 256)) = n := by
  have bound := n.toNat_lt
  apply UInt16.toNat.inj
  simp only [word16, UInt8.toNat_ofNat', UInt16.toNat_ofNat']
  omega

theorem bytes16_word16 (a b : UInt8) : bytes16 (word16 a b) = [a, b] := by
  have boundA := a.toNat_lt
  have boundB := b.toNat_lt
  simp only [bytes16, word16, UInt16.toNat_ofNat', List.cons.injEq, and_true]
  constructor <;> apply UInt8.toNat.inj <;> simp only [UInt8.toNat_ofNat'] <;> omega

theorem bytes32_word32 (a b c d : UInt8) : bytes32 (word32 a b c d) = [a, b, c, d] := by
  have boundA := a.toNat_lt
  have boundB := b.toNat_lt
  have boundC := c.toNat_lt
  have boundD := d.toNat_lt
  simp only [bytes32, word32, UInt32.toNat_ofNat', List.cons.injEq, and_true]
  refine ⟨?_, ?_, ?_, ?_⟩ <;> apply UInt8.toNat.inj <;> simp only [UInt8.toNat_ofNat'] <;> omega

end Bytes

end JarRename
