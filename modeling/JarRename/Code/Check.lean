import JarRename.ClassFile.Attribute
import JarRename.Code.Scan

/-!
**Format checking of code.**

Every operand that is an index of the pool must point at a constant of a kind that its opcode accepts.

* `Code.accepts`: the kinds that an opcode accepts;
* `Code.check`: the rule of one method's code;
* `ClassFile.checkCode`: the rule of all methods of a class.
-/

namespace JarRename

namespace Code

/-- Whether an opcode accepts constants of a kind. -/
def accepts (opcode : UInt8) (kind : Kind) : Bool :=
  let n := opcode.toNat
  if n = 0x12 ∨ n = 0x13 then
    kind = .integer || kind = .float || kind = .string || kind = .classRef ||
      kind = .methodType || kind = .methodHandle || kind = .dynamic
  else if n = 0x14 then kind = .long || kind = .double || kind = .dynamic
  else if 0xb2 ≤ n ∧ n ≤ 0xb5 then kind = .field
  else if n = 0xb6 then kind = .method
  else if n = 0xb7 ∨ n = 0xb8 then kind = .method || kind = .interfaceMethod
  else if n = 0xb9 then kind = .interfaceMethod
  else if n = 0xba then kind = .invokeDynamic
  else if n = 0xbb ∨ n = 0xbd ∨ n = 0xc0 ∨ n = 0xc1 ∨ n = 0xc5 then kind = .classRef
  else false

/-- The rule of an operand. -/
def checkOperand (pool : Pool) (operand : Operand) : Except Fault Unit := do
  let constant ← pool.get operand.index
  if accepts operand.opcode constant.kind then return ()
  else throw (.badOperand operand.opcode operand.pc constant.kind operand.index)

/-- The rule of a method's code. -/
def check (pool : Pool) (code : Bytes) : Except Fault Unit := do
  let found ← operands code
  found.forM (checkOperand pool)

end Code

namespace ClassFile

/-- A text for messages, empty if it cannot be read. -/
def textOrEmpty (pool : Pool) (index : Index) : String :=
  match pool.utf8 index with
  | .ok text => text
  | .error _ => ""

/-- The rule of a method: its code, if it has any. -/
def checkMethod (pool : Pool) (method : Member) : Except Fault Unit := do
  match ← Attribute.findCode? pool method.attributes with
  | none => return ()
  | some code =>
    (Code.check pool code.code).mapError
      (.badCode (textOrEmpty pool method.name) (textOrEmpty pool method.descriptor))

/-- The rule of all methods of a class. -/
def checkCode (file : ClassFile) : Except Fault Unit :=
  file.methods.forM (checkMethod file.pool)

end ClassFile

end JarRename
