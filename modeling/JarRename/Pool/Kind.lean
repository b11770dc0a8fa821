/-!
**The kinds of constants.**

A class file marks every constant with a tag byte. The upper half of a constant that takes two slots
has no tag and is a kind of its own.

* `Kind`: the kinds, with their names (`Kind.name`) and tag bytes (`Kind.tag?`, `Kind.ofTag?`).
-/

namespace JarRename

/-- The kinds of constants in a pool. -/
inductive Kind where
  | utf8
  | integer
  | float
  | long
  | double
  | classRef
  | string
  | field
  | method
  | interfaceMethod
  | nameAndType
  | methodHandle
  | methodType
  | dynamic
  | invokeDynamic
  | moduleRef
  | packageRef
  | reserved
  deriving DecidableEq

namespace Kind

/-- The name of a kind in messages. -/
def name : Kind → String
  | utf8 => "Utf8"
  | integer => "Integer"
  | float => "Float"
  | long => "Long"
  | double => "Double"
  | classRef => "Class"
  | string => "String"
  | field => "Field"
  | method => "Method"
  | interfaceMethod => "InterfaceMethod"
  | nameAndType => "NameAndType"
  | methodHandle => "MethodHandle"
  | methodType => "MethodType"
  | dynamic => "Dynamic"
  | invokeDynamic => "InvokeDynamic"
  | moduleRef => "Module"
  | packageRef => "Package"
  | reserved => "Reserved"

/-- The tag byte of a kind; an upper half has none. -/
def tag? : Kind → Option UInt8
  | utf8 => some 1
  | integer => some 3
  | float => some 4
  | long => some 5
  | double => some 6
  | classRef => some 7
  | string => some 8
  | field => some 9
  | method => some 10
  | interfaceMethod => some 11
  | nameAndType => some 12
  | methodHandle => some 15
  | methodType => some 16
  | dynamic => some 17
  | invokeDynamic => some 18
  | moduleRef => some 19
  | packageRef => some 20
  | reserved => none

/-- The kind with a given tag byte. -/
def ofTag? (tag : UInt8) : Option Kind :=
  match tag.toNat with
  | 1 => some utf8
  | 3 => some integer
  | 4 => some float
  | 5 => some long
  | 6 => some double
  | 7 => some classRef
  | 8 => some string
  | 9 => some field
  | 10 => some method
  | 11 => some interfaceMethod
  | 12 => some nameAndType
  | 15 => some methodHandle
  | 16 => some methodType
  | 17 => some dynamic
  | 18 => some invokeDynamic
  | 19 => some moduleRef
  | 20 => some packageRef
  | _ => none

/-- A tag byte is read as the kind that is written with it. -/
theorem ofTag?_of_tag? {kind : Kind} {tag : UInt8} (tagged : kind.tag? = some tag) :
    ofTag? tag = some kind := by
  cases kind <;> simp only [tag?, Option.some.injEq, reduceCtorEq] at tagged <;> subst tagged <;> rfl

end Kind

end JarRename
