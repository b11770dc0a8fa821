import JarRename.Pool.Constant
import JarRename.Text.ModifiedUtf8

/-!
**The constant pool.**

Slots are counted from one. A constant of two slots is followed by a reserved slot, so that indices
agree with the layout of the class file.

* `Pool.insert`: one constant more;
* `Pool.get`, `Pool.entries`: the constants in use;
* `Pool.utf8`, `Pool.className`, `Pool.nameAndType`, `Pool.memberRef`: what an index stands for;
* `Pool.textIndex?`, `Pool.indexOf?`: where a text or a constant is.
-/

namespace JarRename

/-- A constant pool. -/
structure Pool where
  /-- The slots in order, the first with index one. -/
  slots : Array Constant := #[]
  deriving DecidableEq

/-- A request to a pool. What it has put into the pool before it fails stays there. -/
abbrev PoolEdit (α : Type) := EStateM Fault Pool α

/-- The sorts of members that a constant can refer to. -/
inductive MemberKind where
  | field
  | method
  | interfaceMethod
  deriving DecidableEq

/-- The kind of the constants that refer to members of a sort. -/
def MemberKind.kind : MemberKind → Kind
  | field => .field
  | method => .method
  | interfaceMethod => .interfaceMethod

/-- A member by its names. -/
structure MemberRef where
  kind : MemberKind
  owner : String
  name : String
  descriptor : String
  deriving DecidableEq

namespace Pool

/-- The number of slots is counted with one more in sixteen bits, so this many fit. -/
def maxSlots : Nat := 65534

/-- The number of slots in use. -/
def size (pool : Pool) : Nat :=
  pool.slots.size

/-! ### Growing -/

/-- Whether a constant fits into the pool. -/
def fits (pool : Pool) (constant : Constant) : Bool :=
  pool.size + constant.slots ≤ maxSlots

/-- The pool with a constant after its last slot. -/
def push (pool : Pool) (constant : Constant) : Pool where
  slots :=
    if constant.isWide then (pool.slots.push constant).push .reserved
    else pool.slots.push constant

/-- The index of the next slot. -/
def nextIndex (pool : Pool) : Index :=
  UInt16.ofNat (pool.size + 1)

/-- The index of a constant put after the last slot. -/
def insert (constant : Constant) : PoolEdit Index := fun pool =>
  if pool.fits constant then .ok pool.nextIndex (pool.push constant)
  else .error (.poolOverflow maxSlots) pool

/-! ### Looking up -/

/-- The slot with an index. -/
def slot? (pool : Pool) (index : Index) : Option Constant :=
  if index = 0 then none else pool.slots[index.toNat - 1]?

/-- The constant with an index. -/
def get (pool : Pool) (index : Index) : Except Fault Constant :=
  match pool.slot? index with
  | none => .error (.outOfPool index pool.size)
  | some .reserved => .error (.upperHalf index)
  | some constant => .ok constant

/-- The pool with another constant in one slot. -/
def set (pool : Pool) (index : Index) (constant : Constant) : Pool :=
  if index = 0 then pool else { slots := pool.slots.setIfInBounds (index.toNat - 1) constant }

/-- The constants in use with their indices, in order. -/
def entries (pool : Pool) : List (Index × Constant) :=
  (pool.slots.toList.zipIdx 1).filterMap fun (constant, index) =>
    if constant = .reserved then none else some (UInt16.ofNat index, constant)

/-- The bytes of the text with an index. -/
def utf8Bytes (pool : Pool) (index : Index) : Except Fault Bytes := do
  match ← pool.get index with
  | .utf8 bytes => return bytes
  | other => throw (.wrongKind .utf8 index other.kind)

/-- The name index of the class with an index. -/
def classRef (pool : Pool) (index : Index) : Except Fault Index := do
  match ← pool.get index with
  | .classRef name => return name
  | other => throw (.wrongKind .classRef index other.kind)

/-- The two indices of the name and type with an index. -/
def nameAndTypeRef (pool : Pool) (index : Index) : Except Fault (Index × Index) := do
  match ← pool.get index with
  | .nameAndType name descriptor => return (name, descriptor)
  | other => throw (.wrongKind .nameAndType index other.kind)

/-- The kind and the target of the method handle with an index. -/
def methodHandle (pool : Pool) (index : Index) : Except Fault (UInt8 × Index) := do
  match ← pool.get index with
  | .methodHandle kind target => return (kind, target)
  | other => throw (.wrongKind .methodHandle index other.kind)

/-- The descriptor index of the method type with an index. -/
def methodType (pool : Pool) (index : Index) : Except Fault Index := do
  match ← pool.get index with
  | .methodType descriptor => return descriptor
  | other => throw (.wrongKind .methodType index other.kind)

/-- The sort and the two indices of the member with an index. -/
def member (pool : Pool) (index : Index) : Except Fault (MemberKind × Index × Index) := do
  match ← pool.get index with
  | .field owner nameAndType => return (.field, owner, nameAndType)
  | .method owner nameAndType => return (.method, owner, nameAndType)
  | .interfaceMethod owner nameAndType => return (.interfaceMethod, owner, nameAndType)
  | other => throw (.notMember index other.kind)

/-- The text with an index. -/
def utf8 (pool : Pool) (index : Index) : Except Fault String := do
  Text.decode (← pool.utf8Bytes index)

/-- The name of the class with an index. -/
def className (pool : Pool) (index : Index) : Except Fault String := do
  pool.utf8 (← pool.classRef index)

/-- The name and the descriptor with an index. -/
def nameAndType (pool : Pool) (index : Index) : Except Fault (String × String) := do
  let (name, descriptor) ← pool.nameAndTypeRef index
  return (← pool.utf8 name, ← pool.utf8 descriptor)

/-- The member with an index. -/
def memberRef (pool : Pool) (index : Index) : Except Fault MemberRef := do
  let (kind, owner, nameAndType) ← pool.member index
  let (name, descriptor) ← pool.nameAndType nameAndType
  let owner ← pool.className owner
  return { kind, owner, name, descriptor }

/-- The first index of a constant. -/
def indexOf? (pool : Pool) (constant : Constant) : Option Index :=
  (pool.slots.findIdx? (· == constant)).map fun position => UInt16.ofNat (position + 1)

/-- The first index of a text. -/
def textIndex? (pool : Pool) (text : String) : Option Index :=
  pool.indexOf? (.utf8 (Text.encode text))

end Pool

end JarRename
