import JarRename.Pool.Basic

/-!
**Asking a pool for constants.**

A constant that the pool holds already is found, any other is put after the last slot. A request that
fails leaves what was put before it.

* `Pool.intern`: the index of a constant;
* `Pool.internText`, `Pool.internNameAndType` and so on: the index of a constant given by its texts.
-/

namespace JarRename

namespace Pool

/-- The index of a constant, put after the last slot unless the pool holds it. -/
def intern (constant : Constant) : PoolEdit Index := fun pool =>
  match pool.indexOf? constant with
  | some index => .ok index pool
  | none => insert constant pool

/-- The index of a text. -/
def internText (text : String) : PoolEdit Index :=
  intern (.utf8 (Text.encode text))

/-- The index of a class. -/
def internClass (name : String) : PoolEdit Index := do
  intern (.classRef (← internText name))

/-- The index of a string literal. -/
def internString (text : String) : PoolEdit Index := do
  intern (.string (← internText text))

/-- The index of a name and type. -/
def internNameAndType (name descriptor : String) : PoolEdit Index := do
  let name ← internText name
  let descriptor ← internText descriptor
  intern (.nameAndType name descriptor)

/-- The index of a member. -/
def internMember (kind : MemberKind) (owner name descriptor : String) : PoolEdit Index := do
  let owner ← internClass owner
  let nameAndType ← internNameAndType name descriptor
  match kind with
  | .field => intern (.field owner nameAndType)
  | .method => intern (.method owner nameAndType)
  | .interfaceMethod => intern (.interfaceMethod owner nameAndType)

/-- The index of a method type. -/
def internMethodType (descriptor : String) : PoolEdit Index := do
  intern (.methodType (← internText descriptor))

/-- The index of a computed call site. -/
def internInvokeDynamic (bootstrap : UInt16) (name descriptor : String) : PoolEdit Index := do
  intern (.invokeDynamic bootstrap (← internNameAndType name descriptor))

end Pool

end JarRename
