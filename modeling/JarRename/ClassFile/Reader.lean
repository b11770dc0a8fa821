import JarRename.Code.Check
import JarRename.Pool.Check

/-!
**Reading class files.**

A class file is read front to back and checked on the way: indices must point at constants of the right
kinds, no byte may be left over, and the operands of all code must fit their opcodes.

* `ClassFile.parse`: the class file in bytes;
* `Header.parse`: only the facts about the hierarchy, without members and attributes.
-/

namespace JarRename

namespace Constant

/-- A reader of the contents of a constant of a kind. -/
def readOf : Kind → Reader Constant
  | .utf8 => do
    let length ← Reader.u16
    return .utf8 (← Reader.block length.toNat)
  | .integer => do return .integer (← Reader.u32)
  | .float => do return .float (← Reader.u32)
  | .long => do return .long (← Reader.u64)
  | .double => do return .double (← Reader.u64)
  | .classRef => do return .classRef (← Reader.u16)
  | .string => do return .string (← Reader.u16)
  | .field => do
    let owner ← Reader.u16
    return .field owner (← Reader.u16)
  | .method => do
    let owner ← Reader.u16
    return .method owner (← Reader.u16)
  | .interfaceMethod => do
    let owner ← Reader.u16
    return .interfaceMethod owner (← Reader.u16)
  | .nameAndType => do
    let name ← Reader.u16
    return .nameAndType name (← Reader.u16)
  | .methodHandle => do
    let kind ← Reader.u8
    return .methodHandle kind (← Reader.u16)
  | .methodType => do return .methodType (← Reader.u16)
  | .dynamic => do
    let bootstrap ← Reader.u16
    return .dynamic bootstrap (← Reader.u16)
  | .invokeDynamic => do
    let bootstrap ← Reader.u16
    return .invokeDynamic bootstrap (← Reader.u16)
  | .moduleRef => do return .moduleRef (← Reader.u16)
  | .packageRef => do return .packageRef (← Reader.u16)
  | .reserved => pure .reserved

/-- A reader of a constant with its tag. -/
def read : Reader Constant := do
  let tag ← Reader.u8
  match Kind.ofTag? tag with
  | none => Reader.fail (.unknownTag tag)
  | some kind => readOf kind

end Constant

namespace Pool

/-- A reader of at most `limit` constants into a pool that is to have `declared` slots. -/
def readUpTo (declared : Nat) : Nat → Pool → Reader Pool
  | 0, pool => pure pool
  | limit + 1, pool =>
    if pool.size < declared then do
      let constant ← Constant.read
      if pool.fits constant then readUpTo declared limit (pool.push constant)
      else Reader.fail (.poolOverflow maxSlots)
    else pure pool

/-- A reader of a pool. Every constant takes a slot, so there are no more constants than slots. -/
def read : Reader Pool := do
  let count ← Reader.u16
  if count = 0 then Reader.fail .noPool
  else
    let declared := count.toNat - 1
    let pool ← readUpTo declared declared {}
    if pool.size = declared then return pool
    else Reader.fail (.poolOverrun declared)

end Pool

namespace Member

/-- A reader of a field or a method. -/
def read (pool : Pool) : Reader Member := do
  let flags ← Reader.u16
  let name ← pool.readTextIndex
  let descriptor ← pool.readTextIndex
  let attributes ← Attribute.readTable pool
  return { flags, name, descriptor, attributes }

end Member

/-- What stands in front of the class in a class file. -/
structure Preamble where
  minor : UInt16
  major : UInt16
  pool : Pool
  deriving DecidableEq

namespace ClassFile

/-- The first four bytes of every class file. -/
def magic : UInt32 := 0xCAFEBABE

/-- The oldest version that is read. -/
def minMajor : UInt16 := 45

/-- The newest version that is read. -/
def maxMajor : UInt16 := 71

/-- A reader of what stands in front of the class, with its format checking. -/
def readPreamble : Reader Preamble := do
  let found ← Reader.u32
  if found ≠ magic then Reader.fail (.badMagic found)
  else
    let minor ← Reader.u16
    let major ← Reader.u16
    if major < minMajor ∨ maxMajor < major then Reader.fail (.badVersion major minor)
    else
      let pool ← Pool.read
      Reader.check pool.check
      return { minor, major, pool }

/-- A reader of a class file up to its last attribute. -/
def read : Reader ClassFile := do
  let { minor, major, pool } ← readPreamble
  let flags ← Reader.u16
  let thisClass ← pool.readClassIndex
  let superClass ← pool.readOptionalClassIndex
  let interfaces ← Reader.table pool.readClassIndex
  let fields ← Reader.table (Member.read pool)
  let methods ← Reader.table (Member.read pool)
  let attributes ← Attribute.readTable pool
  return { minor, major, pool, flags, thisClass, superClass, interfaces, fields, methods,
           attributes }

/-- The class file in bytes. -/
def parse (bytes : Bytes) : Except Fault ClassFile := do
  let (file, rest) ← read bytes
  if rest.isEmpty then do
    file.checkCode
    pure file
  else throw .extraBytes

end ClassFile

namespace Header

/-- A reader of the name of a class, or of none where the index is zero. -/
def readOptionalName (pool : Pool) : Reader (Option String) := do
  let index ← Reader.u16
  if index = 0 then return none
  else return some (← Reader.check (pool.className index))

/-- A reader of the facts about the hierarchy. The name of the superclass is looked up before the
interfaces are read, the other names after them. -/
def read : Reader Header := do
  let { pool, .. } ← ClassFile.readPreamble
  let flags ← Reader.u16
  let thisClass ← pool.readClassIndex
  let superName ← readOptionalName pool
  let interfaces ← Reader.table pool.readClassIndex
  let name ← Reader.check (pool.className thisClass)
  let interfaces ← Reader.check (interfaces.mapM pool.className)
  return { name, superName, interfaces, flags }

/-- The facts about the hierarchy of the class file in bytes. -/
def parse (bytes : Bytes) : Except Fault Header := do
  let (header, _) ← read bytes
  return header

end Header

end JarRename
