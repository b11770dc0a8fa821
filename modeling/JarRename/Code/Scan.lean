import JarRename.Bytes.Word
import JarRename.Fault
import JarRename.Pool.Constant

/-!
**The instructions of a method.**

Code is laid out as instructions end to end. The scan walks over them and lists the operands that are
indices of the pool, in order. The code itself is never changed.

* `Operand`: an operand that is an index of the pool;
* `Code.shape`: how many bytes follow an opcode, and which index is among them;
* `Code.operands`: the operands of a method's code.
-/

namespace JarRename

/-- An operand that is an index of the pool. -/
structure Operand where
  pc : Nat
  opcode : UInt8
  index : Index
  deriving DecidableEq

namespace Code

/-- The byte at a distance after the opcode at `pc`. -/
def byteAt (pc : Nat) (after : Bytes) (distance : Nat) : Except Fault UInt8 :=
  match after[distance]? with
  | some byte => .ok byte
  | none => .error (.operandOutside (pc + 1 + distance))

/-- The two bytes at a distance after the opcode at `pc`. -/
def indexAt (pc : Nat) (after : Bytes) (distance : Nat) : Except Fault Index := do
  let a ← byteAt pc after distance
  let b ← byteAt pc after (distance + 1)
  return Bytes.word16 a b

/-- The signed number in the four bytes at a distance after the opcode at `pc`. -/
def numberAt (pc : Nat) (after : Bytes) (distance : Nat) : Except Fault Int := do
  let a ← byteAt pc after distance
  let b ← byteAt pc after (distance + 1)
  let c ← byteAt pc after (distance + 2)
  let d ← byteAt pc after (distance + 3)
  return Bytes.signed 32 (Bytes.word32 a b c d).toNat

/-- How many bytes follow an opcode whose operands have a fixed length and are no index. -/
def plainSize? (opcode : UInt8) : Option Nat :=
  let n := opcode.toNat
  if n ≤ 0x0f ∨ 0x1a ≤ n ∧ n ≤ 0x35 ∨ 0x3b ≤ n ∧ n ≤ 0x83 ∨ 0x85 ≤ n ∧ n ≤ 0x98 ∨
      0xac ≤ n ∧ n ≤ 0xb1 ∨ n = 0xbe ∨ n = 0xbf ∨ n = 0xc2 ∨ n = 0xc3 ∨ n = 0xca then some 0
  else if n = 0x10 ∨ 0x15 ≤ n ∧ n ≤ 0x19 ∨ 0x36 ≤ n ∧ n ≤ 0x3a ∨ n = 0xa9 ∨ n = 0xbc then some 1
  else if n = 0x11 ∨ n = 0x84 ∨ 0x99 ≤ n ∧ n ≤ 0xa8 ∨ n = 0xc6 ∨ n = 0xc7 then some 2
  else if n = 0xc8 ∨ n = 0xc9 then some 4
  else none

/-- How many bytes follow an opcode whose first operand is an index of two bytes. -/
def indexedSize? (opcode : UInt8) : Option Nat :=
  let n := opcode.toNat
  if n = 0x13 ∨ n = 0x14 ∨ 0xb2 ≤ n ∧ n ≤ 0xb8 ∨ n = 0xbb ∨ n = 0xbd ∨ n = 0xc0 ∨ n = 0xc1 then
    some 2
  else if n = 0xb9 ∨ n = 0xba then some 4
  else if n = 0xc5 then some 3
  else none

/-- How many bytes the wide form of an opcode adds after the opcode itself. -/
def widenedSize? (opcode : UInt8) : Option Nat :=
  let n := opcode.toNat
  if n = 0x84 then some 4
  else if 0x15 ≤ n ∧ n ≤ 0x19 ∨ 0x36 ≤ n ∧ n ≤ 0x3a ∨ n = 0xa9 then some 2
  else none

/-- The operands of a switch start at a multiple of four from the start of the code; this many bytes
stand between them and the opcode at `pc`. -/
def padding (pc : Nat) : Nat :=
  (4 - (pc + 1) % 4) % 4

/-- How many bytes follow an instruction's opcode, and the index among them if it has one. -/
structure Shape where
  size : Nat
  index : Option Index := none
  deriving DecidableEq

/-- The shape of the table switch at `pc`. -/
def tableShape (pc : Nat) (after : Bytes) : Except Fault Shape := do
  let low ← numberAt pc after (padding pc + 4)
  let high ← numberAt pc after (padding pc + 8)
  if high < low then throw (.tableBackwards pc)
  else return { size := padding pc + 12 + 4 * (high - low + 1).toNat }

/-- The shape of the lookup switch at `pc`. -/
def lookupShape (pc : Nat) (after : Bytes) : Except Fault Shape := do
  let pairs ← numberAt pc after (padding pc + 4)
  if pairs < 0 then throw (.negativePairs pc)
  else return { size := padding pc + 8 + 8 * pairs.toNat }

/-- The shape of the wide instruction at `pc`. -/
def wideShape (pc : Nat) (after : Bytes) : Except Fault Shape := do
  let widened ← byteAt pc after 0
  match widenedSize? widened with
  | some size => return { size := 1 + size }
  | none => throw (.notWidened widened)

/-- The shape of the instruction at `pc`, from its opcode and the bytes after it. -/
def shape (pc : Nat) (opcode : UInt8) (after : Bytes) : Except Fault Shape :=
  if opcode = 0x12 then do
    let index ← byteAt pc after 0
    return { size := 1, index := some index.toUInt16 }
  else if opcode = 0xaa then tableShape pc after
  else if opcode = 0xab then lookupShape pc after
  else if opcode = 0xc4 then wideShape pc after
  else
    match indexedSize? opcode with
    | some size => do
      let index ← indexAt pc after 0
      return { size, index := some index }
    | none =>
      match plainSize? opcode with
      | some size => .ok { size }
      | none => .error (.unknownOpcode opcode)

/-- The operands of the code from `pc` on, after those found before it (latest first). -/
def operandsFrom (pc : Nat) (found : List Operand) (code : Bytes) : Except Fault (List Operand) :=
  match code with
  | [] => .ok found.reverse
  | opcode :: after =>
    match shape pc opcode after with
    | .error cause => .error cause
    | .ok { size, index } =>
      if (after.take size).length < size then .error (.codeOverrun (size - after.length))
      else
        let found :=
          match index with
          | none => found
          | some index => { pc, opcode, index } :: found
        operandsFrom (pc + 1 + size) found (after.drop size)
termination_by code.length
decreasing_by simp only [List.length_drop, List.length_cons]; omega

/-- The operands of a method's code that are indices of the pool, in order. -/
def operands (code : Bytes) : Except Fault (List Operand) :=
  operandsFrom 0 [] code

end Code

end JarRename
