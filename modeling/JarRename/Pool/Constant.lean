import JarRename.Bytes.Word
import JarRename.Pool.Kind

/-!
**Constants.**

The constants of a class file refer to each other by their index in the pool. Numbers are kept as
their raw bits.
-/

namespace JarRename

/-- The index of a slot of the pool, counted from one. -/
abbrev Index := UInt16

/-- A constant of the pool. -/
inductive Constant where
  /-- Text, as its stored bytes. -/
  | utf8 (bytes : Bytes)
  | integer (bits : UInt32)
  | float (bits : UInt32)
  | long (bits : UInt64)
  | double (bits : UInt64)
  /-- A class, by its name. -/
  | classRef (name : Index)
  /-- A string literal, by its text. -/
  | string (text : Index)
  | field (owner nameAndType : Index)
  | method (owner nameAndType : Index)
  | interfaceMethod (owner nameAndType : Index)
  | nameAndType (name descriptor : Index)
  | methodHandle (kind : UInt8) (target : Index)
  | methodType (descriptor : Index)
  /-- A computed constant, by its bootstrap method (no index of the pool), its name and its type. -/
  | dynamic (bootstrap : UInt16) (nameAndType : Index)
  /-- A computed call site, by its bootstrap method (no index of the pool), its name and its type. -/
  | invokeDynamic (bootstrap : UInt16) (nameAndType : Index)
  | moduleRef (name : Index)
  | packageRef (name : Index)
  /-- The upper half of a constant that takes two slots. -/
  | reserved
  deriving DecidableEq

namespace Constant

/-- The kind of a constant. -/
def kind : Constant → Kind
  | utf8 .. => .utf8
  | integer .. => .integer
  | float .. => .float
  | long .. => .long
  | double .. => .double
  | classRef .. => .classRef
  | string .. => .string
  | field .. => .field
  | method .. => .method
  | interfaceMethod .. => .interfaceMethod
  | nameAndType .. => .nameAndType
  | methodHandle .. => .methodHandle
  | methodType .. => .methodType
  | dynamic .. => .dynamic
  | invokeDynamic .. => .invokeDynamic
  | moduleRef .. => .moduleRef
  | packageRef .. => .packageRef
  | reserved => .reserved

/-- Whether a constant takes two slots. -/
def isWide : Constant → Bool
  | long _ | double _ => true
  | _ => false

/-- How many slots a constant takes. -/
def slots (constant : Constant) : Nat :=
  if constant.isWide then 2 else 1

end Constant

end JarRename
