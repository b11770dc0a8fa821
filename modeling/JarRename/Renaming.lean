import JarRename.Bytes.Patch
import JarRename.ClassFile.Writer
import JarRename.Pool.Intern
import JarRename.Renamer
import JarRename.Site.Collect

/-!
**Renaming a class.**

Every site of a class is asked about by the names the class has before the renaming. Texts and
name-and-type constants are never edited, because other constants may share them: a new name gets its own
constant after the last slot, unless the pool holds it already, and the site is pointed there. Attributes
are patched in place and keep their lengths.

* `Replacement`, `Renamer.replacement?`: what a symbol is replaced by;
* `ClassFile.replaceAt`: a replacement stored at a location;
* `ClassFile.renameSites`: sites renamed one by one, which leaves the changes made before a failure;
* `ClassFile.rename`: a class renamed, with the number of sites that changed;
* `ClassFile.renameBytes`: the same on the bytes of a class.
-/

namespace JarRename

/-! ### What a symbol is replaced by -/

/-- What is stored at a site in place of what stands there. -/
inductive Replacement where
  | text (text : String)
  | nameAndType (name descriptor : String)
  deriving DecidableEq

namespace Renamer

/-- A text in place of another, if they differ. -/
def changed (old new : String) : Option Replacement :=
  if old = new then none else some (.text new)

/-- A name and a descriptor in place of others, if they differ. -/
def changedMember (name descriptor : String) (newName : Option String) (newDescriptor : String) :
    Option Replacement :=
  let newName := newName.getD name
  if newName = name && newDescriptor = descriptor then none
  else some (.nameAndType newName newDescriptor)

/-- The flags of the fields behind the components of a record: private and final. -/
def componentFlags : Flags := 0x0012

/-- What a symbol is replaced by, if it changes. -/
def replacement? (renamer : Renamer) : Symbol → Except Fault (Option Replacement)
  | .ofClass name => do
    return (← renamer.mapType name).map .text
  | .ofField owner name descriptor declared => do
    return changedMember name descriptor (renamer.mapField owner name descriptor declared)
      (← renamer.mapDescriptor descriptor)
  | .ofMethod owner name descriptor declared => do
    return changedMember name descriptor (renamer.mapMethod owner name descriptor declared)
      (← renamer.mapDescriptor descriptor)
  | .enclosingMethod owner name descriptor => do
    return changedMember name descriptor (renamer.mapMethod owner name descriptor none)
      (← renamer.mapDescriptor descriptor)
  | .callSite site => do
    return changedMember site.name site.descriptor (renamer.mapCallSiteName site)
      (← renamer.mapDescriptor site.descriptor)
  | .ofDescriptor descriptor => do
    return changed descriptor (← renamer.mapDescriptor descriptor)
  | .ofSignature signature => do
    return changed signature (← renamer.mapSignature signature)
  | .innerName inner name => return (renamer.mapInnerName inner name).map .text
  | .recordComponent owner name descriptor =>
    return (renamer.mapField owner name descriptor (some componentFlags)).bind (changed name)

end Renamer

/-! ### Storing a replacement -/

/-- A change of a class file. -/
abbrev ClassEdit (α : Type) := EStateM Fault ClassFile α

/-- The constant with its name, its descriptor or its name and type at another index. -/
def Constant.repoint (index : Index) : Constant → Constant
  | classRef _ => classRef index
  | methodType _ => methodType index
  | field owner _ => field owner index
  | method owner _ => method owner index
  | interfaceMethod owner _ => interfaceMethod owner index
  | dynamic bootstrap _ => dynamic bootstrap index
  | invokeDynamic bootstrap _ => invokeDynamic bootstrap index
  | other => other

/-- The constant at an index repointed, if it is of one of some kinds. There must be a slot with the index. -/
def Pool.repoint (kinds : List Kind) (index target : Index) : PoolEdit Unit := fun pool =>
  match pool.slot? index with
  | none => .error (.outOfPool index pool.size) pool
  | some constant =>
    if constant.kind ∈ kinds then .ok () (pool.set index (constant.repoint target)) else .ok () pool

/-- The index of a replacement. -/
def Replacement.intern : Replacement → PoolEdit Index
  | text value => Pool.internText value
  | nameAndType name descriptor => Pool.internNameAndType name descriptor

namespace ClassFile

/-- A request to the pool of a class file. -/
def editPool {α : Type} (edit : PoolEdit α) : ClassEdit α := fun file =>
  let pool := file.pool
  let file := { file with pool := {} }
  match edit pool with
  | .ok value pool => .ok value { file with pool }
  | .error cause pool => .error cause { file with pool }

/-- The member with its name and descriptor at other indices. -/
def renameMember (name descriptor : Index) (member : Member) : Member :=
  { member with name, descriptor }

/-- The attributes of an owner changed. -/
def mapAttributes (owner : Owner) (change : List Attribute → List Attribute) (file : ClassFile) :
    ClassFile :=
  let inMember := fun (member : Member) => { member with attributes := change member.attributes }
  match owner with
  | .ofClass => { file with attributes := change file.attributes }
  | .ofField position => { file with fields := file.fields.modify position inMember }
  | .ofMethod position => { file with methods := file.methods.modify position inMember }

/-- The attributes of an owner. -/
def attributesOf (file : ClassFile) : Owner → List Attribute
  | .ofClass => file.attributes
  | .ofField position => (file.fields[position]?.map Member.attributes).getD []
  | .ofMethod position => (file.methods[position]?.map Member.attributes).getD []

/-- Fails unless a class has the owner of attributes. -/
def checkOwner (file : ClassFile) : Owner → Except Fault Unit
  | .ofClass => .ok ()
  | .ofField position => if position < file.fields.length then .ok () else .error (.noField position)
  | .ofMethod position => if position < file.methods.length then .ok () else .error (.noMethod position)

/-- The attribute of an owner at a position. -/
def attributeAt (owner : Owner) (position : Nat) (file : ClassFile) : Except Fault Attribute := do
  file.checkOwner owner
  match (file.attributesOf owner)[position]? with
  | none => .error (.noAttribute position)
  | some item => .ok item

/-- What is found in a class file, which stays as it is. -/
def inspect {α : Type} (look : ClassFile → Except Fault α) : ClassEdit α := fun file =>
  match look file with
  | .ok value => .ok value file
  | .error cause => .error cause file

/-- An index stored at an offset inside an attribute. -/
def patchAttribute (owner : Owner) (position offset : Nat) (index : Index) : ClassEdit Unit := do
  let item ← inspect (attributeAt owner position)
  let data ← inspect fun _ => item.data.patch offset index
  modify fun file => file.mapAttributes owner fun items => items.set position { item with data }

/-- A constant of one of some kinds pointed at a replacement. -/
def repointAt (kinds : List Kind) (index : Index) (replacement : Replacement) : ClassEdit Unit := do
  let target ← editPool replacement.intern
  editPool (Pool.repoint kinds index target)

/-- A replacement stored at a location, which takes either a text or a name and type. Whatever the location asks
for must be there, and new names are put into the pool before that is found out. -/
def replaceAt : Location → Replacement → ClassEdit Unit
  | .classConstant index, .text value => repointAt [.classRef] index (.text value)
  | .methodTypeConstant index, .text value => repointAt [.methodType] index (.text value)
  | .memberConstant index, .nameAndType name descriptor =>
    repointAt [.field, .method, .interfaceMethod] index (.nameAndType name descriptor)
  | .dynamicConstant index, .nameAndType name descriptor =>
    repointAt [.dynamic, .invokeDynamic] index (.nameAndType name descriptor)
  | .fieldDeclaration position, .nameAndType name descriptor => do
    let name ← editPool (Pool.internText name)
    let descriptor ← editPool (Pool.internText descriptor)
    inspect fun file => file.checkOwner (.ofField position)
    modify fun file =>
      { file with fields := file.fields.modify position (renameMember name descriptor) }
  | .methodDeclaration position, .nameAndType name descriptor => do
    let name ← editPool (Pool.internText name)
    let descriptor ← editPool (Pool.internText descriptor)
    inspect fun file => file.checkOwner (.ofMethod position)
    modify fun file =>
      { file with methods := file.methods.modify position (renameMember name descriptor) }
  | .inAttribute owner position offset, replacement => do
    let index ← editPool replacement.intern
    patchAttribute owner position offset index
  | location, _ => throw (.unfit location.describe)

/-! ### Renaming all sites -/

/-- A site renamed, with the number of changes (one or none). Operands in code are renamed through their
constants. -/
def renameSite (renamer : Renamer) (site : Site) : ClassEdit Nat :=
  if site.location.isInstruction then return 0
  else
    match renamer.replacement? site.symbol with
    | .error cause => throw cause
    | .ok none => return 0
    | .ok (some replacement) => do
      replaceAt site.location replacement
      return 1

/-- Sites renamed one by one, with the number of changes. -/
def renameSites (renamer : Renamer) (sites : List Site) : ClassEdit Nat :=
  sites.foldlM (fun count site => do return count + (← renameSite renamer site)) 0

/-- The class renamed, with the number of sites that changed. -/
def rename (renamer : Renamer) (file : ClassFile) : Except Fault (ClassFile × Nat) := do
  let sites ← file.sites
  match renameSites renamer sites file with
  | .ok count file => return (file, count)
  | .error cause _ => throw cause

/-- A class renamed, in bytes. -/
structure Renamed where
  oldName : String
  newName : String
  bytes : Bytes
  /-- How many sites changed. -/
  changes : Nat
  deriving DecidableEq

/-- The class in bytes renamed. Bytes in which nothing changes stay as they are. -/
def renameBytes (renamer : Renamer) (bytes : Bytes) : Except Fault Renamed := do
  let file ← parse bytes
  let oldName ← file.name
  let (file, changes) ← file.rename renamer
  if changes = 0 then return { oldName, newName := oldName, bytes, changes }
  else
    let newName ← file.name
    let bytes ← file.toBytes
    return { oldName, newName, bytes, changes }

end ClassFile

end JarRename
