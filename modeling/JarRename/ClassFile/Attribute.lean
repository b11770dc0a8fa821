import JarRename.Bytes.Reader
import JarRename.ClassFile.Basic

/-!
**Attributes.**

Reading the attribute tables of a class file, and the contents of the two attributes that the library
decodes: the code of a method and the table of bootstrap methods.

* `Attribute.readTable`: a table of attributes;
* `CodeAttribute`, `BootstrapMethod`: decoded contents;
* `Attribute.findCode?`, `Attribute.findBootstraps?`: the first such attribute of a table.
-/

namespace JarRename

/-- A reader of an index that must point at a text. -/
def Pool.readTextIndex (pool : Pool) : Reader Index := do
  let index ← Reader.u16
  let _ ← Reader.check (pool.utf8Bytes index)
  return index

/-- A reader of an index that must point at a class. -/
def Pool.readClassIndex (pool : Pool) : Reader Index := do
  let index ← Reader.u16
  let _ ← Reader.check (pool.classRef index)
  return index

/-- A reader of an index that points at a class or is zero. -/
def Pool.readOptionalClassIndex (pool : Pool) : Reader (Option Index) := do
  let index ← Reader.u16
  if index = 0 then return none
  else
    let _ ← Reader.check (pool.classRef index)
    return some index

namespace Attribute

/-- A reader of an attribute. -/
def read (pool : Pool) : Reader Attribute := do
  let name ← pool.readTextIndex
  let length ← Reader.u32
  let data ← Reader.block length.toNat
  return { name, data }

/-- A reader of a table of attributes. -/
def readTable (pool : Pool) : Reader (List Attribute) :=
  Reader.table (read pool)

end Attribute

/-- An exception handler of a method's code. -/
structure Handler where
  start : UInt16
  finish : UInt16
  handler : UInt16
  /-- The class that is caught; everything if there is none. -/
  catchType : Option Index
  deriving DecidableEq

/-- The contents of a `Code` attribute. -/
structure CodeAttribute where
  maxStack : UInt16
  maxLocals : UInt16
  code : Bytes
  handlers : List Handler
  attributes : List Attribute
  deriving DecidableEq

namespace CodeAttribute

/-- Where the nested attributes start inside the contents. -/
def attributesOffset (code : CodeAttribute) : Nat :=
  2 + 2 + 4 + code.code.length + 2 + code.handlers.length * 8

/-- A reader of an exception handler. -/
def readHandler (pool : Pool) : Reader Handler := do
  let start ← Reader.u16
  let finish ← Reader.u16
  let handler ← Reader.u16
  let catchType ← pool.readOptionalClassIndex
  return { start, finish, handler, catchType }

/-- A reader of the contents of a `Code` attribute. -/
def read (pool : Pool) : Reader CodeAttribute := do
  let maxStack ← Reader.u16
  let maxLocals ← Reader.u16
  let length ← Reader.u32
  let code ← Reader.block length.toNat
  let handlers ← Reader.table (readHandler pool)
  let attributes ← Attribute.readTable pool
  return { maxStack, maxLocals, code, handlers, attributes }

end CodeAttribute

/-- A bootstrap method with its static arguments. -/
structure BootstrapMethod where
  handle : Index
  arguments : List Index
  deriving DecidableEq

namespace BootstrapMethod

/-- A reader of an index that must point at a constant. -/
def readArgument (pool : Pool) : Reader Index := do
  let index ← Reader.u16
  let _ ← Reader.check (pool.get index)
  return index

/-- A reader of a bootstrap method. -/
def read (pool : Pool) : Reader BootstrapMethod := do
  let handle ← Reader.u16
  let _ ← Reader.check (pool.methodHandle handle)
  let arguments ← Reader.table (readArgument pool)
  return { handle, arguments }

/-- A reader of the contents of a `BootstrapMethods` attribute. -/
def readTable (pool : Pool) : Reader (List BootstrapMethod) :=
  Reader.table (read pool)

end BootstrapMethod

namespace Attribute

/-- The contents of an attribute, decoded to its last byte. -/
def decode {α : Type} (name : String) (contents : Reader α) (item : Attribute) :
    Except Fault α := do
  let (value, rest) ← contents item.data
  if rest.isEmpty then return value else throw (.trailingBytes name)

/-- The first attribute of a name in a table, decoded. The names in front of it must be readable. -/
def find? {α : Type} (pool : Pool) (name : String) (contents : Reader α) :
    List Attribute → Except Fault (Option α)
  | [] => .ok none
  | item :: rest => do
    if (← pool.utf8 item.name) = name then
      return some (← decode name contents item)
    else find? pool name contents rest

/-- The code of a method, from its attributes. -/
def findCode? (pool : Pool) (attributes : List Attribute) : Except Fault (Option CodeAttribute) :=
  find? pool "Code" (CodeAttribute.read pool) attributes

/-- The bootstrap methods of a class, from its attributes. -/
def findBootstraps? (pool : Pool) (attributes : List Attribute) :
    Except Fault (Option (List BootstrapMethod)) :=
  find? pool "BootstrapMethods" (BootstrapMethod.readTable pool) attributes

end Attribute

end JarRename
