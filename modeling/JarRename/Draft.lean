import JarRename.ClassFile.Writer
import JarRename.Pool.Intern

/-!
**Assembling classes.**

A draft is a class under construction. Its constants are interned, so asking twice for the same class or
member gives the same index, and its code and bootstrap methods become attributes when it is finished. A
step that fails leaves what was put into the pool before it.

* `Draft.start`: a draft of a class;
* `Draft.request`, `Draft.addField`, `Draft.addMethod` and so on: the steps;
* `Draft.finish`, `Draft.toBytes`: the finished class.
-/

namespace JarRename

/-- A method under construction. -/
structure DraftMethod where
  member : Member
  /-- The instructions, if the method has code. -/
  code : Option Bytes
  /-- The attributes of the code. -/
  codeAttributes : List Attribute := []
  deriving DecidableEq

/-- A class under construction. -/
structure Draft where
  pool : Pool := {}
  /-- Public, with the usual treatment of superclass methods. -/
  flags : Flags := 0x0021
  thisClass : Index := 0
  superClass : Option Index := none
  interfaces : List Index := []
  fields : List Member := []
  methods : List DraftMethod := []
  attributes : List Attribute := []
  bootstraps : List BootstrapMethod := []
  deriving DecidableEq

/-- A step of the construction. -/
abbrev DraftEdit (α : Type) := EStateM Fault Draft α

namespace Draft

/-- The version of finished classes. -/
def major : UInt16 := 61

/-- The stack and the local variables that finished code may use. -/
def codeLimit : UInt16 := 8

/-- A request to the pool of a draft. -/
def request {α : Type} (edit : PoolEdit α) : DraftEdit α := fun draft =>
  let pool := draft.pool
  let draft := { draft with pool := {} }
  match edit pool with
  | .ok value pool => .ok value { draft with pool }
  | .error cause pool => .error cause { draft with pool }

/-- A draft of a class with its name and the name of its superclass. -/
def start (name : String) (superName : Option String) : Except Fault Draft :=
  let build : DraftEdit Unit := do
    let thisClass ← request (Pool.internClass name)
    modify fun draft => { draft with thisClass }
    match superName with
    | none => return ()
    | some superName =>
      let superClass ← request (Pool.internClass superName)
      modify fun draft => { draft with superClass := some superClass }
  match build {} with
  | .ok _ draft => .ok draft
  | .error cause _ => .error cause

/-- Sets the flags of the class. -/
def setFlags (flags : Flags) : DraftEdit Unit :=
  modify fun draft => { draft with flags }

/-- Adds an interface. -/
def addInterface (name : String) : DraftEdit Unit := do
  let interface ← request (Pool.internClass name)
  modify fun draft => { draft with interfaces := draft.interfaces ++ [interface] }

/-- Adds a bootstrap method and gives its position. -/
def addBootstrap (handle : Index) (arguments : List Index) : DraftEdit UInt16 := fun draft =>
  .ok (UInt16.ofNat draft.bootstraps.length)
    { draft with bootstraps := draft.bootstraps ++ [{ handle, arguments }] }

/-- A member without attributes. -/
def newMember (flags : Flags) (name descriptor : String) : DraftEdit Member := do
  let name ← request (Pool.internText name)
  let descriptor ← request (Pool.internText descriptor)
  return { flags, name, descriptor, attributes := [] }

/-- Adds a field and gives its position. -/
def addField (flags : Flags) (name descriptor : String) : DraftEdit Nat := do
  let field ← newMember flags name descriptor
  fun draft => .ok draft.fields.length { draft with fields := draft.fields ++ [field] }

/-- Adds a method with its instructions and gives its position. -/
def addMethod (flags : Flags) (name descriptor : String) (code : Option Bytes) :
    DraftEdit Nat := do
  let member ← newMember flags name descriptor
  fun draft => .ok draft.methods.length { draft with methods := draft.methods ++ [{ member, code }] }

/-- An attribute of a name. -/
def newAttribute (name : String) (data : Bytes) : DraftEdit Attribute := do
  let name ← request (Pool.internText name)
  return { name, data }

/-- The member with one attribute more. -/
def withAttribute (item : Attribute) (member : Member) : Member :=
  { member with attributes := member.attributes ++ [item] }

/-- Adds an attribute to the class. -/
def addClassAttribute (name : String) (data : Bytes) : DraftEdit Unit := do
  let item ← newAttribute name data
  modify fun draft => { draft with attributes := draft.attributes ++ [item] }

/-- Adds an attribute to the field at a position, if there is one. -/
def addFieldAttribute (position : Nat) (name : String) (data : Bytes) : DraftEdit Unit := do
  let item ← newAttribute name data
  modify fun draft => { draft with fields := draft.fields.modify position (withAttribute item) }

/-- Adds an attribute to the method at a position, if there is one. -/
def addMethodAttribute (position : Nat) (name : String) (data : Bytes) : DraftEdit Unit := do
  let item ← newAttribute name data
  modify fun draft =>
    { draft with methods := draft.methods.modify position fun method =>
        { method with member := withAttribute item method.member } }

/-- Adds an attribute to the code of the method at a position, if there is one. -/
def addCodeAttribute (position : Nat) (name : String) (data : Bytes) : DraftEdit Unit := do
  let item ← newAttribute name data
  modify fun draft =>
    { draft with methods := draft.methods.modify position fun method =>
        { method with codeAttributes := method.codeAttributes ++ [item] } }

/-! ### Finishing -/

/-- The contents of a `Code` attribute without exception handlers. -/
def codeBytes (code : Bytes) (attributes : List Attribute) : Except Fault Bytes := do
  let length ← Bytes.length32 code.length
  let attributes ← Attribute.tableBytes attributes
  return Bytes.bytes16 codeLimit ++ Bytes.bytes16 codeLimit ++ length ++ code ++ Bytes.bytes16 0 ++
    attributes

/-- The bytes of a bootstrap method. -/
def bootstrapBytes (method : BootstrapMethod) : Except Fault Bytes := do
  let arguments ← Bytes.table (fun index => return Bytes.bytes16 index) method.arguments
  return Bytes.bytes16 method.handle ++ arguments

/-- The outcome of something that does not change the draft. -/
def check {α : Type} (outcome : Except Fault α) : DraftEdit α := fun draft =>
  match outcome with
  | .ok value => .ok value draft
  | .error cause => .error cause draft

/-- Puts the bootstrap methods into an attribute, if there are any. -/
def closeBootstraps : DraftEdit Unit := do
  let { bootstraps, .. } ← get
  if bootstraps.isEmpty then return ()
  else
    let data ← check (Bytes.table bootstrapBytes bootstraps)
    addClassAttribute "BootstrapMethods" data

/-- The method with its code in front of its attributes. -/
def closeMethod (method : DraftMethod) : DraftEdit Member := do
  match method.code with
  | none => return method.member
  | some code =>
    let data ← check (codeBytes code method.codeAttributes)
    let item ← newAttribute "Code" data
    return { method.member with attributes := item :: method.member.attributes }

/-- The finished class. -/
def close : DraftEdit ClassFile := do
  closeBootstraps
  let { methods, .. } ← get
  let methods ← methods.mapM closeMethod
  let { pool, flags, thisClass, superClass, interfaces, fields, attributes, .. } ← get
  return { minor := 0, major, pool, flags, thisClass, superClass, interfaces, fields, methods,
           attributes }

/-- The class that a draft becomes. -/
def finish (draft : Draft) : Except Fault ClassFile :=
  match close draft with
  | .ok file _ => .ok file
  | .error cause _ => .error cause

/-- The bytes of the class that a draft becomes. -/
def toBytes (draft : Draft) : Except Fault Bytes := do
  (← draft.finish).toBytes

end Draft

end JarRename
