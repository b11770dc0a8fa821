import JarRename.Bytes.Word
import JarRename.Fault

/-!
**Reading bytes from the front.**

A reader takes a value from the front of the bytes and leaves the rest, or fails and leaves nothing
taken.

* `Reader`: the readers, which run one after the other;
* `Reader.u8`, `Reader.u16`, `Reader.u32`, `Reader.u64`, `Reader.block`: numbers and blocks;
* `Reader.many`: a given number of values.
-/

namespace JarRename

/-- A reader of values from the front of the bytes. -/
abbrev Reader (α : Type) := StateT Bytes (Except Fault) α

namespace Reader

/-- One byte, announced as a number of the given width. -/
def byte (width : Width) : Reader UInt8
  | a :: rest => .ok (a, rest)
  | [] => .error (.outOfBytes width 0)

/-- Two bytes, announced as a number of the given width. -/
def double (width : Width) : Reader UInt16
  | a :: b :: rest => .ok (Bytes.word16 a b, rest)
  | rest => .error (.outOfBytes width rest.length)

/-- Four bytes, announced as a number of the given width. -/
def quad (width : Width) : Reader UInt32
  | a :: b :: c :: d :: rest => .ok (Bytes.word32 a b c d, rest)
  | rest => .error (.outOfBytes width rest.length)

/-- An unsigned number of one byte. -/
def u8 : Reader UInt8 := byte .u8

/-- An unsigned number of two bytes. -/
def u16 : Reader UInt16 := double .u16

/-- An unsigned number of four bytes. -/
def u32 : Reader UInt32 := quad .u32

/-- An unsigned number of eight bytes. -/
def u64 : Reader UInt64
  | a :: b :: c :: d :: e :: f :: g :: h :: rest =>
    .ok (Bytes.word64 (Bytes.word32 a b c d) (Bytes.word32 e f g h), rest)
  | rest => .error (.outOfBytes .u64 rest.length)

/-- A signed number of one byte. -/
def i8 : Reader Int := do
  return Bytes.signed 8 (← byte .i8).toNat

/-- A signed number of two bytes. -/
def i16 : Reader Int := do
  return Bytes.signed 16 (← double .i16).toNat

/-- A signed number of four bytes. -/
def i32 : Reader Int := do
  return Bytes.signed 32 (← quad .i32).toNat

/-- The next `length` bytes. -/
def block (length : Nat) : Reader Bytes := fun bytes =>
  let taken := bytes.take length
  if taken.length = length then .ok (taken, bytes.drop length)
  else .error (.outOfBlock length bytes.length)

/-- Fails with a cause. -/
def fail {α : Type} (cause : Fault) : Reader α := fun _ => .error cause

/-- The outcome of a check that takes no bytes. -/
def check {α : Type} (outcome : Except Fault α) : Reader α := fun bytes =>
  match outcome with
  | .ok value => .ok (value, bytes)
  | .error cause => .error cause

/-- `count` values after those found before them (latest first). -/
def manyFrom {α : Type} (item : Reader α) (found : List α) : Nat → Reader (List α)
  | 0 => pure found.reverse
  | count + 1 => do
    let value ← item
    manyFrom item (value :: found) count

/-- `count` values, one after the other. -/
def many {α : Type} (item : Reader α) (count : Nat) : Reader (List α) :=
  manyFrom item [] count

/-- A table: the number of values in two bytes, then the values. -/
def table {α : Type} (item : Reader α) : Reader (List α) := do
  let count ← u16
  many item count.toNat

end Reader

end JarRename
