import JarRename.Bytes.Word
import JarRename.Fault

/-!
**Indices inside bytes, and lengths in front of bytes.**

Attributes keep pool indices in two bytes at known offsets. Such an index can be read and overwritten
in place, and lengths are written in front of what they count.

* `Bytes.peek`, `Bytes.patch`: the index at an offset;
* `Bytes.length16`, `Bytes.length32`: a length as a number of two or four bytes.
-/

namespace JarRename.Bytes

/-- The index stored at an offset. -/
def peek (bytes : Bytes) (offset : Nat) : Except Fault UInt16 :=
  match bytes.drop offset with
  | a :: b :: _ => .ok (word16 a b)
  | _ => .error (.peekOutside offset bytes.length)

/-- The bytes with another index stored at an offset. -/
def patch (bytes : Bytes) (offset : Nat) (index : UInt16) : Except Fault Bytes :=
  match bytes.drop offset with
  | _ :: _ :: rest => .ok (bytes.take offset ++ bytes16 index ++ rest)
  | _ => .error (.patchOutside offset bytes.length)

/-- A length as a number of two bytes. -/
def length16 (length : Nat) : Except Fault Bytes :=
  if length < 65536 then .ok (bytes16 (UInt16.ofNat length)) else .error (.tooLong length .u16)

/-- A length as a number of four bytes. -/
def length32 (length : Nat) : Except Fault Bytes :=
  if length < 4294967296 then .ok (bytes32 (UInt32.ofNat length))
  else .error (.tooLong length .u32)

end JarRename.Bytes
