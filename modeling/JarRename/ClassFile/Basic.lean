import JarRename.Pool.Basic

/-!
**Class files.**

A class file holds a pool, the class itself with its superclass and interfaces, and its fields, methods
and attributes. Attributes keep their contents as bytes.

* `ClassFile`, `Member`, `Attribute`: the parts of a class file;
* `ClassFile.header`: the facts of a class about the hierarchy;
* `ClassFile.field?`, `ClassFile.method?`: members by name.
-/

namespace JarRename

/-- Access flags, as their bits; unknown bits are kept. -/
abbrev Flags := UInt16

/-- An attribute with its contents. -/
structure Attribute where
  name : Index
  data : Bytes
  deriving DecidableEq

/-- A field or a method. -/
structure Member where
  flags : Flags
  name : Index
  descriptor : Index
  attributes : List Attribute
  deriving DecidableEq

/-- A class file. -/
structure ClassFile where
  minor : UInt16
  major : UInt16
  pool : Pool
  flags : Flags
  thisClass : Index
  superClass : Option Index
  interfaces : List Index
  fields : List Member
  methods : List Member
  attributes : List Attribute
  deriving DecidableEq

/-- The facts of a class about the hierarchy. -/
structure Header where
  name : String
  superName : Option String
  interfaces : List String
  flags : Flags
  deriving DecidableEq

namespace ClassFile

/-- The name of the class. -/
def name (file : ClassFile) : Except Fault String :=
  file.pool.className file.thisClass

/-- The name of the superclass, if there is one. -/
def superName (file : ClassFile) : Except Fault (Option String) :=
  match file.superClass with
  | none => .ok none
  | some index => do return some (← file.pool.className index)

/-- The names of the interfaces. -/
def interfaceNames (file : ClassFile) : Except Fault (List String) :=
  file.interfaces.mapM file.pool.className

/-- The facts of the class about the hierarchy. -/
def header (file : ClassFile) : Except Fault Header := do
  let name ← file.name
  let superName ← file.superName
  let interfaces ← file.interfaceNames
  return { name, superName, interfaces, flags := file.flags }

/-- Whether the text with an index is the given one. -/
def isText (file : ClassFile) (index : Index) (text : String) : Bool :=
  match file.pool.utf8 index with
  | .ok found => found == text
  | .error _ => false

/-- The first field of a name. -/
def field? (file : ClassFile) (name : String) : Option Member :=
  file.fields.find? fun field => file.isText field.name name

/-- The first method of a name and descriptor. -/
def method? (file : ClassFile) (name descriptor : String) : Option Member :=
  file.methods.find? fun method =>
    file.isText method.name name && file.isText method.descriptor descriptor

end ClassFile

end JarRename
