import JarRename.Pool.Basic

/-!
**Format checking of the pool.**

Every constant in use must refer to constants of the right kinds. The first one that does not is
reported with its index.

* `Pool.checkConstant`: the rule of one constant;
* `Pool.check`: the rule of the whole pool.
-/

namespace JarRename.Pool

/-- Whether a method handle of a kind can refer to a constant of a kind; `none` if there is no such
kind of handle. -/
def handleAccepts? (handle : UInt8) (target : Kind) : Option Bool :=
  let n := handle.toNat
  if 1 ≤ n ∧ n ≤ 4 then some (target = .field)
  else if n = 5 ∨ n = 8 then some (target = .method)
  else if n = 6 ∨ n = 7 then some (target = .method || target = .interfaceMethod)
  else if n = 9 then some (target = .interfaceMethod)
  else none

/-- The rule of a method handle. -/
def checkHandle (pool : Pool) (handle : UInt8) (target : Index) : Except Fault Unit := do
  let constant ← pool.get target
  match handleAccepts? handle constant.kind with
  | none => throw (.unknownHandle handle)
  | some true => return ()
  | some false => throw (.handleTarget handle constant.kind)

/-- The rule of a constant. -/
def checkConstant (pool : Pool) : Constant → Except Fault Unit
  | .classRef name | .moduleRef name | .packageRef name => do
    let _ ← pool.utf8Bytes name
  | .string text => do
    let _ ← pool.utf8Bytes text
  | .field owner nameAndType | .method owner nameAndType | .interfaceMethod owner nameAndType => do
    let _ ← pool.classRef owner
    let _ ← pool.nameAndTypeRef nameAndType
  | .nameAndType name descriptor => do
    let _ ← pool.utf8Bytes name
    let _ ← pool.utf8Bytes descriptor
  | .methodHandle kind target => pool.checkHandle kind target
  | .methodType descriptor => do
    let _ ← pool.utf8Bytes descriptor
  | .dynamic _ nameAndType | .invokeDynamic _ nameAndType => do
    let _ ← pool.nameAndTypeRef nameAndType
  | .utf8 _ | .integer _ | .float _ | .long _ | .double _ | .reserved => return ()

/-- The rule of a constant, reported with its index. -/
def checkEntry (pool : Pool) (entry : Index × Constant) : Except Fault Unit :=
  (pool.checkConstant entry.2).mapError (.badConstant entry.1)

/-- The rule of the whole pool. -/
def check (pool : Pool) : Except Fault Unit :=
  pool.entries.forM pool.checkEntry

end JarRename.Pool
