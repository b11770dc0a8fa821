import JarRename.Bytes.Patch
import JarRename.ClassFile.Reader

/-!
**Writing class files.**

Constants keep their slots and attributes their contents, so a class file that was read is written back
byte for byte.

* `ClassFile.toBytes`: the bytes of a class file.
-/

namespace JarRename

namespace Bytes

/-- The bytes of values, one after the other. -/
def concat {α : Type} (write : α → Except Fault Bytes) (values : List α) : Except Fault Bytes := do
  return (← values.mapM write).flatten

/-- The bytes of a table: the number of values in two bytes, then the values. -/
def table {α : Type} (write : α → Except Fault Bytes) (values : List α) : Except Fault Bytes := do
  let count ← length16 values.length
  let contents ← concat write values
  return count ++ contents

end Bytes

namespace Constant

/-- The bytes of a constant after its tag. -/
def contents : Constant → Except Fault Bytes
  | utf8 bytes => do return (← Bytes.length16 bytes.length) ++ bytes
  | integer bits | float bits => return Bytes.bytes32 bits
  | long bits | double bits => return Bytes.bytes64 bits
  | classRef index | string index | methodType index | moduleRef index | packageRef index =>
    return Bytes.bytes16 index
  | field owner pair | method owner pair | interfaceMethod owner pair =>
    return Bytes.bytes16 owner ++ Bytes.bytes16 pair
  | nameAndType name descriptor => return Bytes.bytes16 name ++ Bytes.bytes16 descriptor
  | methodHandle kind target => return kind :: Bytes.bytes16 target
  | dynamic bootstrap pair | invokeDynamic bootstrap pair =>
    return Bytes.bytes16 bootstrap ++ Bytes.bytes16 pair
  | reserved => return []

/-- The bytes of a constant. An upper half has none. -/
def toBytes (constant : Constant) : Except Fault Bytes :=
  match constant.kind.tag? with
  | none => .ok []
  | some tag => do return tag :: (← constant.contents)

end Constant

/-- The bytes of a pool. -/
def Pool.toBytes (pool : Pool) : Except Fault Bytes := do
  let count ← Bytes.length16 (pool.size + 1)
  let contents ← Bytes.concat Constant.toBytes pool.slots.toList
  return count ++ contents

namespace Attribute

/-- The bytes of an attribute. -/
def toBytes (item : Attribute) : Except Fault Bytes := do
  let length ← Bytes.length32 item.data.length
  return Bytes.bytes16 item.name ++ length ++ item.data

/-- The bytes of a table of attributes. -/
def tableBytes (items : List Attribute) : Except Fault Bytes :=
  Bytes.table toBytes items

end Attribute

/-- The bytes of a field or a method. -/
def Member.toBytes (member : Member) : Except Fault Bytes := do
  let attributes ← Attribute.tableBytes member.attributes
  return Bytes.bytes16 member.flags ++ Bytes.bytes16 member.name ++
    Bytes.bytes16 member.descriptor ++ attributes

/-- The bytes of a class file. -/
def ClassFile.toBytes (file : ClassFile) : Except Fault Bytes := do
  let pool ← file.pool.toBytes
  let interfaces ← Bytes.table (fun index => return Bytes.bytes16 index) file.interfaces
  let fields ← Bytes.table Member.toBytes file.fields
  let methods ← Bytes.table Member.toBytes file.methods
  let attributes ← Attribute.tableBytes file.attributes
  return Bytes.bytes32 magic ++ Bytes.bytes16 file.minor ++ Bytes.bytes16 file.major ++ pool ++
    Bytes.bytes16 file.flags ++ Bytes.bytes16 file.thisClass ++
    Bytes.bytes16 (file.superClass.getD 0) ++ interfaces ++ fields ++ methods ++ attributes

end JarRename
