import JarRename.Proofs.Descriptor
import JarRename.Proofs.Site.Collect

/-!
**Renamed symbols.**

A symbol is renamed part by part, by the answers for the names it has before the renaming. What is stored for the
renamed symbol is the replacement of the symbol.

* `Renamer.newType`, `Renamer.newLambda`, `Renamer.renamedSymbol`: the renamed parts and the renamed symbol;
* `Renamer.exists_renamedSymbol`: the replacement of a symbol is what is stored for the renamed symbol;
* `Renamer.RenamesTo`, `Renamer.RenamesSite`: a member and a site with their names renamed;
* `Renamer.KeepsFactory`: renamers under which the call sites that make lambdas stay the same.
-/

namespace JarRename

namespace Renamer

variable {renamer : Renamer}

/-! ### The parts of a symbol -/

/-- The new name of a class or an array class, which is the old one where there is no other. -/
def newType (renamer : Renamer) (name : String) : Except Fault String := do
  return (← renamer.mapType name).getD name

/-- The method of a functional interface with its interface and its descriptor renamed. The interface is the result
in a descriptor and is renamed as in one. -/
def newLambda (renamer : Renamer) (lambda : LambdaTarget) : Except Fault LambdaTarget := do
  let methodDescriptor ← renamer.mapDescriptor lambda.methodDescriptor
  return { interface := renameOrKeep renamer.mapClass lambda.interface, methodDescriptor }

/-- The same for a call site that may make no lambdas. -/
def newLambda? (renamer : Renamer) : Option LambdaTarget → Except Fault (Option LambdaTarget)
  | none => return none
  | some lambda => do return some (← renamer.newLambda lambda)

/-- **The symbol with each part renamed**, by the answers for the names that it has. -/
def renamedSymbol (renamer : Renamer) : Symbol → Except Fault Symbol
  | .ofClass name => do return .ofClass (← renamer.newType name)
  | .ofField owner name descriptor declared => do
    let newOwner ← renamer.newType owner
    let newDescriptor ← renamer.mapDescriptor descriptor
    return .ofField newOwner ((renamer.mapField owner name descriptor declared).getD name) newDescriptor declared
  | .ofMethod owner name descriptor declared => do
    let newOwner ← renamer.newType owner
    let newDescriptor ← renamer.mapDescriptor descriptor
    return .ofMethod newOwner ((renamer.mapMethod owner name descriptor declared).getD name) newDescriptor declared
  | .ofDescriptor descriptor => do return .ofDescriptor (← renamer.mapDescriptor descriptor)
  | .ofSignature signature => do return .ofSignature (← renamer.mapSignature signature)
  | .innerName inner name => do
    let newInner ← renamer.newType inner
    return .innerName newInner ((renamer.mapInnerName inner name).getD name)
  | .recordComponent owner name descriptor => do
    let newOwner ← renamer.newType owner
    let newDescriptor ← renamer.mapDescriptor descriptor
    return .recordComponent newOwner
      ((renamer.mapField owner name descriptor (some componentFlags)).getD name) newDescriptor
  | .enclosingMethod owner name descriptor => do
    let newOwner ← renamer.newType owner
    let newDescriptor ← renamer.mapDescriptor descriptor
    return .enclosingMethod newOwner ((renamer.mapMethod owner name descriptor none).getD name) newDescriptor
  | .callSite site => do
    let descriptor ← renamer.mapDescriptor site.descriptor
    let lambda ← renamer.newLambda? site.lambda
    return .callSite { name := (renamer.mapCallSiteName site).getD site.name, descriptor, lambda }

/-! ### What is stored for a renamed symbol -/

theorem getD_changed (old new : String) : (changed old new).getD (.text old) = .text new := by
  unfold changed
  split_ifs with same
  · rw [same]
    rfl
  · rfl

theorem getD_changedMember (name descriptor : String) (newName : Option String) (newDescriptor : String) :
    (changedMember name descriptor newName newDescriptor).getD (.nameAndType name descriptor) =
      .nameAndType (newName.getD name) newDescriptor := by
  unfold changedMember
  dsimp only
  split_ifs with same
  · simp only [Bool.and_eq_true, decide_eq_true_eq] at same
    rw [same.1, same.2]
    rfl
  · rfl

theorem getD_map_text (new : Option String) (old : String) :
    (new.map Replacement.text).getD (.text old) = .text (new.getD old) := by
  cases new <;> rfl

theorem newType_eq_ok {name new : String} :
    renamer.newType name = .ok new ↔ ∃ answer, renamer.mapType name = .ok answer ∧ answer.getD name = new := by
  simp only [newType, bind_eq_ok, pure_eq_ok]

/-- The answers that a renamed symbol takes beside those for its replacement. -/
def Answers (renamer : Renamer) : Symbol → Prop
  | .ofField owner _ _ _ | .ofMethod owner _ _ _ | .enclosingMethod owner _ _ | .innerName owner _ =>
    ∃ new, renamer.newType owner = .ok new
  | .recordComponent owner _ descriptor =>
    (∃ new, renamer.newType owner = .ok new) ∧ ∃ new, renamer.mapDescriptor descriptor = .ok new
  | .callSite site => ∃ new, renamer.newLambda? site.lambda = .ok new
  | .ofClass _ | .ofDescriptor _ | .ofSignature _ => True

/-- **The replacement of a symbol** is what is stored for the renamed symbol. -/
theorem exists_renamedSymbol {symbol : Symbol} {replacement? : Option Replacement}
    (asked : renamer.replacement? symbol = .ok replacement?) (answers : renamer.Answers symbol) :
    ∃ new, renamer.renamedSymbol symbol = .ok new ∧ replacement?.getD symbol.stored = new.stored := by
  cases symbol
  case ofClass name =>
    obtain ⟨answer, mapped, same⟩ := bind_eq_ok.mp asked
    cases same
    refine ⟨_, bind_eq_ok.mpr ⟨_, newType_eq_ok.mpr ⟨answer, mapped, rfl⟩, rfl⟩, ?_⟩
    exact getD_map_text answer name
  case ofDescriptor descriptor =>
    obtain ⟨new, mapped, same⟩ := bind_eq_ok.mp asked
    cases same
    exact ⟨_, bind_eq_ok.mpr ⟨new, mapped, rfl⟩, getD_changed descriptor new⟩
  case ofSignature signature =>
    obtain ⟨new, mapped, same⟩ := bind_eq_ok.mp asked
    cases same
    exact ⟨_, bind_eq_ok.mpr ⟨new, mapped, rfl⟩, getD_changed signature new⟩
  case innerName inner name =>
    cases asked
    obtain ⟨newInner, mapped⟩ := answers
    exact ⟨_, bind_eq_ok.mpr ⟨newInner, mapped, rfl⟩, getD_map_text _ name⟩
  case recordComponent owner name descriptor =>
    cases asked
    obtain ⟨⟨newOwner, mapped⟩, newDescriptor, mappedDescriptor⟩ := answers
    refine ⟨_, bind_eq_ok.mpr ⟨newOwner, mapped, bind_eq_ok.mpr ⟨newDescriptor, mappedDescriptor, rfl⟩⟩, ?_⟩
    cases renamer.mapField owner name descriptor (some componentFlags) with
    | none => rfl
    | some new => exact getD_changed name new
  case callSite site =>
    obtain ⟨newDescriptor, mappedDescriptor, same⟩ := bind_eq_ok.mp asked
    cases same
    obtain ⟨newLambda, mapped⟩ := answers
    exact ⟨_, bind_eq_ok.mpr ⟨newDescriptor, mappedDescriptor, bind_eq_ok.mpr ⟨newLambda, mapped, rfl⟩⟩,
      getD_changedMember _ _ _ _⟩
  -- fields, methods and methods around are replaced alike
  all_goals
    obtain ⟨newDescriptor, mappedDescriptor, same⟩ := bind_eq_ok.mp asked
    cases same
    obtain ⟨newOwner, mapped⟩ := answers
    exact ⟨_, bind_eq_ok.mpr ⟨newOwner, mapped, bind_eq_ok.mpr ⟨newDescriptor, mappedDescriptor, rfl⟩⟩,
      getD_changedMember _ _ _ _⟩

/-- A declared field is renamed to a field of the renamed class. -/
theorem renamedSymbol_field {owner newOwner name descriptor : String} {declared : Option Flags}
    {replacement? : Option Replacement} (mapped : renamer.newType owner = .ok newOwner)
    (asked : renamer.replacement? (.ofField owner name descriptor declared) = .ok replacement?) :
    ∃ newName newDescriptor, renamer.renamedSymbol (.ofField owner name descriptor declared) =
        .ok (.ofField newOwner newName newDescriptor declared) ∧
      replacement?.getD (.nameAndType name descriptor) = .nameAndType newName newDescriptor := by
  obtain ⟨newDescriptor, mappedDescriptor, same⟩ := bind_eq_ok.mp asked
  cases same
  exact ⟨_, newDescriptor, bind_eq_ok.mpr ⟨newOwner, mapped, bind_eq_ok.mpr ⟨_, mappedDescriptor, rfl⟩⟩,
    getD_changedMember _ _ _ _⟩

/-- A declared method is renamed to a method of the renamed class. -/
theorem renamedSymbol_method {owner newOwner name descriptor : String} {declared : Option Flags}
    {replacement? : Option Replacement} (mapped : renamer.newType owner = .ok newOwner)
    (asked : renamer.replacement? (.ofMethod owner name descriptor declared) = .ok replacement?) :
    ∃ newName newDescriptor, renamer.renamedSymbol (.ofMethod owner name descriptor declared) =
        .ok (.ofMethod newOwner newName newDescriptor declared) ∧
      replacement?.getD (.nameAndType name descriptor) = .nameAndType newName newDescriptor := by
  obtain ⟨newDescriptor, mappedDescriptor, same⟩ := bind_eq_ok.mp asked
  cases same
  exact ⟨_, newDescriptor, bind_eq_ok.mpr ⟨newOwner, mapped, bind_eq_ok.mpr ⟨_, mappedDescriptor, rfl⟩⟩,
    getD_changedMember _ _ _ _⟩

/-! ### Members and sites -/

/-- The new name of a member that a constant refers to. -/
def memberName (renamer : Renamer) (member : MemberRef) : String :=
  match member.kind with
  | .field => (renamer.mapField member.owner member.name member.descriptor none).getD member.name
  | .method | .interfaceMethod =>
    (renamer.mapMethod member.owner member.name member.descriptor none).getD member.name

/-- A member and the member with its names renamed. -/
structure RenamesTo (renamer : Renamer) (member new : MemberRef) : Prop where
  kind : new.kind = member.kind
  owner : renamer.newType member.owner = .ok new.owner
  name : new.name = renamer.memberName member
  descriptor : renamer.mapDescriptor member.descriptor = .ok new.descriptor

theorem RenamesTo.symbol {member new : MemberRef} (renames : renamer.RenamesTo member new) :
    renamer.renamedSymbol member.symbol = .ok new.symbol := by
  obtain ⟨sameKind, newOwner, sameName, newDescriptor⟩ := renames
  obtain ⟨kind, oldOwner, oldName, oldDescriptor⟩ := member
  obtain ⟨newKind, owner, name, descriptor⟩ := new
  cases sameKind
  cases sameName
  cases kind
  all_goals exact bind_eq_ok.mpr ⟨owner, newOwner, bind_eq_ok.mpr ⟨descriptor, newDescriptor, rfl⟩⟩

/-- The replacement of a member is its new name with its new descriptor. -/
theorem replacement?_member {member : MemberRef} {replacement? : Option Replacement}
    (asked : renamer.replacement? member.symbol = .ok replacement?) :
    ∃ descriptor, renamer.mapDescriptor member.descriptor = .ok descriptor ∧
      replacement?.getD member.symbol.stored = .nameAndType (renamer.memberName member) descriptor := by
  rw [MemberRef.stored_symbol]
  unfold MemberRef.symbol at asked
  unfold memberName
  cases kind : member.kind
  all_goals
    rw [kind] at asked
    obtain ⟨descriptor, mapped, same⟩ := bind_eq_ok.mp asked
    cases same
    exact ⟨descriptor, mapped, getD_changedMember _ _ _ _⟩

/-- A site and the site at the same location with its symbol renamed. -/
structure RenamesSite (renamer : Renamer) (site new : Site) : Prop where
  location : new.location = site.location
  symbol : renamer.renamedSymbol site.symbol = .ok new.symbol

/-- The index stands in the pool for what is stored for the renamed symbol. -/
def Follows (renamer : Renamer) (pool : Pool) (symbol : Symbol) (index : Index) (new : Symbol) : Prop :=
  renamer.renamedSymbol symbol = .ok new ∧ pool.Names index new.stored

/-! ### Call sites that make lambdas -/

/-- The renamer neither renames the class whose methods make lambdas or its members, nor gives its name to another
class. -/
structure KeepsFactory (renamer : Renamer) : Prop where
  name : renameOrKeep renamer.mapClass lambdaFactory = lambdaFactory
  only : ∀ name, renameOrKeep renamer.mapClass name = lambdaFactory → name = lambdaFactory
  field : ∀ name descriptor declared,
    (renamer.mapField lambdaFactory name descriptor declared).getD name = name
  method : ∀ name descriptor declared,
    (renamer.mapMethod lambdaFactory name descriptor declared).getD name = name

theorem newType_of_not_isArray {name : String} (plain : isArray name = false) :
    renamer.newType name = .ok (renameOrKeep renamer.mapClass name) := by
  rw [newType, mapType, plain]
  rfl

/-- An array class is renamed to an array class. -/
theorem isArray_of_newType {name new : String} (array : isArray name = true)
    (mapped : renamer.newType name = .ok new) : isArray new = true := by
  obtain ⟨answer, found, rfl⟩ := newType_eq_ok.mp mapped
  rw [mapType, if_pos array] at found
  obtain ⟨text, renamed, same⟩ := bind_eq_ok.mp found
  by_cases kept : text = name
  · rw [if_pos kept, pure_eq_ok] at same
    rw [← same]
    exact array
  · rw [if_neg kept, pure_eq_ok] at same
    rw [← same]
    rw [isArray, beq_iff_eq] at array ⊢
    exact Descriptor.head?_of_rename array renamed

/-- Only the class whose methods make lambdas gets its name. -/
theorem KeepsFactory.newType_eq (keeps : renamer.KeepsFactory) {name new : String}
    (mapped : renamer.newType name = .ok new) : new = lambdaFactory ↔ name = lambdaFactory := by
  by_cases array : isArray name = true
  · have newArray := isArray_of_newType array mapped
    have plain : isArray lambdaFactory = false := by decide +kernel
    constructor
    · rintro rfl
      cases plain.symm.trans newArray
    · rintro rfl
      cases plain.symm.trans array
  · rw [newType_of_not_isArray (Bool.not_eq_true _ ▸ array)] at mapped
    cases mapped
    exact ⟨keeps.only name, fun same => same ▸ keeps.name⟩

/-- A member makes lambdas after the renaming exactly if it did before. -/
theorem KeepsFactory.isLambdaFactory_eq (keeps : renamer.KeepsFactory) {member new : MemberRef}
    (renames : renamer.RenamesTo member new) :
    SiteContext.isLambdaFactory new = SiteContext.isLambdaFactory member := by
  have same := keeps.newType_eq renames.owner
  unfold SiteContext.isLambdaFactory
  by_cases factory : member.owner = lambdaFactory
  · have named : renamer.memberName member = member.name := by
      unfold memberName
      rw [factory]
      cases member.kind
      · exact keeps.field _ _ _
      all_goals exact keeps.method _ _ _
    rw [factory, same.mpr factory, renames.name, named]
  · rw [beq_false_of_ne factory, beq_false_of_ne fun equal => factory (same.mp equal)]
    rfl

end Renamer

end JarRename
