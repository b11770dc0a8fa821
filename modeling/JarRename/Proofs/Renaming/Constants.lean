import JarRename.Proofs.Renaming.Frame
import JarRename.Proofs.Renaming.Symbols

/-!
**The constants of a renamed class.**

Every index of a constant stands for the renamed names after a renaming: a class for its new name, a member for
its new owner, name and descriptor, a call site for its new name, descriptor and lambda. The bootstrap methods stay
the same, and they make lambdas after the renaming exactly if they did before.

* `ClassFile.Outcome.className`, `ClassFile.Outcome.memberRef`, `ClassFile.Outcome.methodType`: what an index stands
  for;
* `ClassFile.Reopened`, `ClassFile.exists_reopened`: what the sites of the renamed class are read with;
* `ClassFile.Reopened.lambdaTarget?`: the lambdas of call sites;
* `ClassFile.Reopened.constantSite?`: the site of a constant.
-/

namespace JarRename

namespace ClassFile

variable {renamer : Renamer} {file after : ClassFile} {context : SiteContext} {parts : SiteParts} {count : Nat}
variable {index : Index}

/-! ### What an index stands for -/

namespace Outcome

/-- The site of a constant that points at a name holds its replacement. -/
theorem stored (outcome : Outcome renamer file context parts after count)
    (small : file.pool.size ≤ Pool.maxSlots) {constant : Constant}
    (slot : file.pool.slot? index = some constant) (pointed : constant.isPointed = true) :
    file.pool.get index = .ok constant ∧
      ∃ site replacement?, context.constantSite? index = .ok (some site) ∧
        renamer.replacement? site.symbol = .ok replacement? ∧
        after.Stores site.location (replacement?.getD site.symbol.stored) := by
  have found : file.pool.get index = .ok constant := by
    refine Pool.get_eq_ok.mpr ⟨slot, ?_⟩
    rintro rfl
    cases pointed
  obtain ⟨site, member, done, -, stays⟩ := outcome.collected.constant small found pointed
  obtain ⟨replacement?, asked, stores⟩ := outcome.stores site member stays
  exact ⟨found, site, replacement?, done, asked, stores⟩

/-- **The index of a class stands for its new name.** -/
theorem className (outcome : Outcome renamer file context parts after count)
    (small : file.pool.size ≤ Pool.maxSlots) {name : String} (read : file.pool.className index = .ok name) :
    ∃ new, renamer.newType name = .ok new ∧ after.pool.className index = .ok new := by
  obtain ⟨text, slot, -⟩ := Pool.className_eq_ok.mp read
  obtain ⟨found, site, replacement?, done, asked, stores⟩ := outcome.stored small slot rfl
  rw [SiteContext.constantSite?, outcome.collected.pool, found, ok_bind] at done
  obtain ⟨other, again, same⟩ := bind_eq_ok.mp done
  cases same
  cases read.symm.trans again
  obtain ⟨new, renamed, stored⟩ := Renamer.exists_renamedSymbol asked trivial
  obtain ⟨newName, mapped, same⟩ := bind_eq_ok.mp renamed
  cases same
  rw [stored] at stores
  exact ⟨newName, mapped, Pool.className_eq_ok.mpr stores⟩

/-- **The index of a member stands for its new names.** -/
theorem memberRef (outcome : Outcome renamer file context parts after count)
    (small : file.pool.size ≤ Pool.maxSlots) {member : MemberRef} (read : file.pool.memberRef index = .ok member) :
    ∃ new, renamer.RenamesTo member new ∧ after.pool.memberRef index = .ok new := by
  obtain ⟨owner, pair, slot, -, ownerRead⟩ := Pool.memberRef_eq_ok.mp read
  obtain ⟨newOwner, mapped, newOwnerRead⟩ := outcome.className small ownerRead
  obtain ⟨later, kept, alike⟩ := outcome.edited.pool.slot slot
  obtain ⟨target, rfl⟩ := alike.exists_repoint
  have pointed : (member.kind.constant owner pair).isPointed = true := by cases member.kind <;> rfl
  obtain ⟨found, site, replacement?, done, asked, stores⟩ := outcome.stored small slot pointed
  rw [SiteContext.constantSite?_member (outcome.collected.pool ▸ read)] at done
  cases done
  obtain ⟨descriptor, mappedDescriptor, stored⟩ := Renamer.replacement?_member asked
  rw [stored] at stores
  obtain ⟨newKind, other, newPair, newSlot, newRead⟩ := stores
  refine ⟨⟨member.kind, newOwner, renamer.memberName member, descriptor⟩, ⟨rfl, mapped, rfl, mappedDescriptor⟩, ?_⟩
  refine Pool.memberRef_eq_ok.mpr ⟨owner, newPair, ?_, newRead, newOwnerRead⟩
  -- only the name and type of the constant changed
  have same := Option.some.inj (kept.symm.trans newSlot)
  rw [newSlot, ← same]
  revert same
  cases member.kind <;> cases newKind <;> rintro ⟨⟩ <;> rfl

/-- **The index of a method type stands for its new descriptor.** -/
theorem methodType (outcome : Outcome renamer file context parts after count)
    (small : file.pool.size ≤ Pool.maxSlots) {descriptor : Index} {text : String}
    (slot : file.pool.slot? index = some (.methodType descriptor)) (read : file.pool.utf8 descriptor = .ok text) :
    ∃ target new, renamer.mapDescriptor text = .ok new ∧
      after.pool.slot? index = some (.methodType target) ∧ after.pool.utf8 target = .ok new := by
  obtain ⟨found, site, replacement?, done, asked, stores⟩ := outcome.stored small slot rfl
  rw [SiteContext.constantSite?, outcome.collected.pool, found, ok_bind] at done
  obtain ⟨other, again, same⟩ := bind_eq_ok.mp done
  cases same
  cases read.symm.trans again
  obtain ⟨new, renamed, stored⟩ := Renamer.exists_renamedSymbol asked trivial
  obtain ⟨newText, mapped, same⟩ := bind_eq_ok.mp renamed
  cases same
  rw [stored] at stores
  obtain ⟨target, kept, newRead⟩ := stores
  exact ⟨target, newText, mapped, kept, newRead⟩

/-- The bootstrap methods name nothing themselves, so they stay the same. -/
theorem findBootstraps? (outcome : Outcome renamer file context parts after count)
    (small : file.pool.size ≤ Pool.maxSlots) :
    Attribute.findBootstraps? after.pool after.attributes = .ok context.bootstraps := by
  have keeps := outcome.edited.pool.toKeeps
  obtain ⟨-, -, read⟩ := SiteContext.ofClass_eq_ok.mp outcome.collected.opened
  have decodes (item later : Attribute) (methods : List BootstrapMethod)
      (both : ∃ position : Nat, (file.attributesOf .ofClass)[position]? = some item ∧
        (after.attributesOf .ofClass)[position]? = some later)
      (named : file.pool.utf8 item.name = .ok "BootstrapMethods")
      (decoded : BootstrapMethod.readTable file.pool item.data = .ok (methods, [])) :
      ∃ again, BootstrapMethod.readTable after.pool later.data = .ok (again, []) ∧ methods = again := by
    obtain ⟨position, here, there⟩ := both
    obtain ⟨other, name, mentions, kept, -, nameRead, walked, outside, -⟩ := outcome.item small here
    cases there.symm.trans kept
    cases named.symm.trans nameRead
    cases Mention.ofAttribute_bootstrapMethods walked
    have same : later.data = item.data :=
      List.ext_getElem? fun offset => outside offset fun _ member => absurd member List.not_mem_nil
    rw [same]
    exact ⟨methods, BootstrapMethod.readTable_keep keeps decoded, rfl⟩
  obtain ⟨found, again, same⟩ := Attribute.find?_related keeps (outcome.edited.items .ofClass)
    (fun _ _ ⟨_, here, there⟩ => outcome.edited.name_eq here there) decodes read
  generalize context.bootstraps = before at same ⊢
  cases same with
  | none => exact again
  | some same =>
    rw [same]
    exact again

end Outcome

/-! ### The renamed class opened again -/

/-- A class and its sites after all of them are renamed, with what the sites of the renamed class are read with.
The renamer answers with names that descriptors can hold, and keeps the class whose methods make lambdas. -/
structure Reopened (renamer : Renamer) (file : ClassFile) (context : SiteContext) (parts : SiteParts)
    (after : ClassFile) (count : Nat) (later : SiteContext) : Prop
    extends Outcome renamer file context parts after count where
  small : file.pool.size ≤ Pool.maxSlots
  answers : AnswersClassNames renamer.mapClass
  factory : renamer.KeepsFactory
  opened : SiteContext.ofClass after = .ok later
  pool : later.pool = after.pool
  bootstraps : later.bootstraps = context.bootstraps
  name : renamer.newType context.name = .ok later.name

/-- The renamed class has its new name and the same bootstrap methods. -/
theorem exists_reopened (outcome : Outcome renamer file context parts after count)
    (small : file.pool.size ≤ Pool.maxSlots) (answers : AnswersClassNames renamer.mapClass)
    (factory : renamer.KeepsFactory) : ∃ later, Reopened renamer file context parts after count later := by
  obtain ⟨-, named, -⟩ := SiteContext.ofClass_eq_ok.mp outcome.collected.opened
  obtain ⟨name, mapped, newNamed⟩ := outcome.className small named
  have thisClass : after.thisClass = file.thisClass := congrArg Outline.thisClass outcome.edited.outline
  rw [← thisClass] at newNamed
  refine ⟨⟨after.pool, name, context.bootstraps⟩, outcome, small, answers, factory, ?_, rfl, rfl, mapped⟩
  exact SiteContext.ofClass_eq_ok.mpr ⟨rfl, newNamed, outcome.findBootstraps? small⟩

end ClassFile

/-- The method of an interface whose method type is at an index, if there is a method type. -/
def Pool.lambda? (pool : Pool) (interface : String) (index : Index) : Except Fault (Option LambdaTarget) := do
  match ← pool.get index with
  | .methodType descriptor => return some { interface, methodDescriptor := ← pool.utf8 descriptor }
  | _ => return none

namespace ClassFile.Reopened

variable {renamer : Renamer} {file after : ClassFile} {context later : SiteContext} {parts : SiteParts}
variable {count : Nat} {index : Index}

/-! ### Lambdas -/

theorem lambda? (reopened : Reopened renamer file context parts after count later) {interface : String}
    {lambda : Option LambdaTarget} (done : context.pool.lambda? interface index = .ok lambda) :
    ∃ new, renamer.newLambda? lambda = .ok new ∧
      later.pool.lambda? (renameOrKeep renamer.mapClass interface) index = .ok new := by
  rw [reopened.collected.pool] at done
  rw [reopened.pool]
  obtain ⟨constant, found, done⟩ := bind_eq_ok.mp done
  obtain ⟨renamed, kept, alike⟩ := reopened.edited.pool.get found
  obtain ⟨target, rfl⟩ := alike.exists_repoint
  cases constant
  case methodType descriptor =>
    obtain ⟨text, read, same⟩ := bind_eq_ok.mp done
    cases same
    obtain ⟨newTarget, new, mapped, newSlot, newRead⟩ :=
      reopened.methodType reopened.small (Pool.get_eq_ok.mp found).1 read
    refine ⟨_, bind_eq_ok.mpr ⟨_, bind_eq_ok.mpr ⟨new, mapped, rfl⟩, rfl⟩, ?_⟩
    exact bind_eq_ok.mpr ⟨_, Pool.get_eq_ok.mpr ⟨newSlot, nofun⟩, bind_eq_ok.mpr ⟨new, newRead, rfl⟩⟩
  all_goals
    cases done
    exact ⟨none, rfl, bind_eq_ok.mpr ⟨_, kept, rfl⟩⟩

/-- The lambda of a descriptor is renamed with the descriptor. -/
theorem lambdaOf (reopened : Reopened renamer file context parts after count later) {method : BootstrapMethod}
    {descriptor newDescriptor : String} {lambda : Option LambdaTarget}
    (done : context.lambdaOf method descriptor = .ok lambda)
    (mapped : renamer.mapDescriptor descriptor = .ok newDescriptor) :
    ∃ new, renamer.newLambda? lambda = .ok new ∧ later.lambdaOf method newDescriptor = .ok new := by
  unfold SiteContext.lambdaOf at done ⊢
  rw [Descriptor.isMethod_of_rename mapped]
  by_cases isMethod : Descriptor.isMethod descriptor = true
  · rw [isMethod] at done ⊢
    obtain ⟨type, parsed, done⟩ := bind_eq_ok.mp done
    rw [Descriptor.parse_of_rename reopened.answers parsed mapped]
    obtain ⟨parameters, result⟩ := type
    obtain ⟨handle, arguments⟩ := method
    cases result with
    | base | array =>
      cases done
      exact ⟨none, rfl, rfl⟩
    | object interface =>
      cases arguments with
      | nil =>
        cases done
        exact ⟨none, rfl, rfl⟩
      | cons argument rest => exact reopened.lambda? done
  · rw [Bool.eq_false_iff.mpr isMethod] at done ⊢
    cases done
    exact ⟨none, rfl, rfl⟩

/-- **A call site makes the renamed lambda** after the renaming, and none if it made none. -/
theorem lambdaTarget? (reopened : Reopened renamer file context parts after count later) {bootstrap : UInt16}
    {descriptor newDescriptor : String} {lambda : Option LambdaTarget}
    (done : context.lambdaTarget? bootstrap descriptor = .ok lambda)
    (mapped : renamer.mapDescriptor descriptor = .ok newDescriptor) :
    ∃ new, renamer.newLambda? lambda = .ok new ∧ later.lambdaTarget? bootstrap newDescriptor = .ok new := by
  obtain ⟨methods, method, kind, target, member, table, found, handle, read, done⟩ :=
    SiteContext.lambdaTarget?_eq_ok.mp done
  rw [reopened.collected.pool] at handle read
  have handleAgain : later.pool.methodHandle method.handle = .ok (kind, target) := by
    rw [reopened.pool]
    exact Pool.methodHandle_eq_ok.mpr (reopened.edited.pool.slot_eq (Pool.methodHandle_eq_ok.mp handle) rfl)
  obtain ⟨newMember, renames, newRead⟩ := reopened.memberRef reopened.small read
  rw [← reopened.pool] at newRead
  have again : ∃ new, renamer.newLambda? lambda = .ok new ∧
      (if SiteContext.isLambdaFactory newMember then later.lambdaOf method newDescriptor else return none) =
        .ok new := by
    rw [reopened.factory.isLambdaFactory_eq renames]
    split_ifs at done ⊢
    · exact reopened.lambdaOf done mapped
    · cases done
      exact ⟨none, rfl, rfl⟩
  obtain ⟨new, renamed, newDone⟩ := again
  exact ⟨new, renamed, SiteContext.lambdaTarget?_eq_ok.mpr ⟨methods, method, kind, target, newMember,
    reopened.bootstraps.trans table, found, handleAgain, newRead, newDone⟩⟩

/-! ### The site of a constant -/

/-- The name and type of a call site or a computed constant that holds a replacement. -/
theorem names_of_dynamic (bootstrap : UInt16) {pair : Index} {replacement : Replacement}
    (slot : after.pool.slot? index = some (.dynamic bootstrap pair) ∨
      after.pool.slot? index = some (.invokeDynamic bootstrap pair))
    (stores : after.Stores (.dynamicConstant index) replacement) : after.pool.Names pair replacement := by
  cases replacement with
  | text => exact False.elim stores
  | nameAndType name descriptor =>
    obtain ⟨other, otherPair, otherSlot, read⟩ := stores
    have same : pair = otherPair := by
      obtain slot | slot := slot <;> obtain otherSlot | otherSlot := otherSlot <;> cases slot.symm.trans otherSlot
      all_goals rfl
    rw [same]
    exact read

/-- A call site is renamed, where its constant has the new name and type. -/
theorem callSite (reopened : Reopened renamer file context parts after count later) {bootstrap : UInt16}
    {pair newPair : Index} {symbol : Symbol} (done : context.callSite bootstrap pair = .ok symbol)
    {replacement? : Option Replacement} (asked : renamer.replacement? symbol = .ok replacement?)
    (names : later.pool.Names newPair (replacement?.getD symbol.stored)) :
    ∃ new, renamer.renamedSymbol symbol = .ok new ∧ later.callSite bootstrap newPair = .ok new := by
  obtain ⟨name, descriptor, lambda, -, target, rfl⟩ := SiteContext.callSite_eq_ok.mp done
  obtain ⟨newDescriptor, mapped, -⟩ := bind_eq_ok.mp asked
  obtain ⟨newLambda, renamedLambda, newTarget⟩ := reopened.lambdaTarget? target mapped
  obtain ⟨new, renamed, stored⟩ := Renamer.exists_renamedSymbol asked ⟨newLambda, renamedLambda⟩
  refine ⟨new, renamed, ?_⟩
  obtain ⟨_, mappedAgain, rest⟩ := bind_eq_ok.mp renamed
  obtain ⟨_, lambdaAgain, rest⟩ := bind_eq_ok.mp rest
  cases mapped.symm.trans mappedAgain
  cases renamedLambda.symm.trans lambdaAgain
  cases rest
  rw [stored] at names
  exact SiteContext.callSite_eq_ok.mpr ⟨_, newDescriptor, newLambda, names, newTarget, rfl⟩

/-- A member that an index stands for is renamed. -/
theorem memberSymbol (reopened : Reopened renamer file context parts after count later) {symbol : Symbol}
    (done : context.memberSymbol index = .ok symbol) :
    ∃ member, renamer.renamedSymbol symbol = .ok member.symbol ∧ later.pool.memberRef index = .ok member := by
  obtain ⟨member, read, rfl⟩ := SiteContext.memberSymbol_eq_ok.mp done
  rw [reopened.collected.pool] at read
  obtain ⟨new, renames, newRead⟩ := reopened.memberRef reopened.small read
  rw [← reopened.pool] at newRead
  exact ⟨new, renames.symbol, newRead⟩

/-- **The site of a constant is renamed.** -/
theorem constantSite? (reopened : Reopened renamer file context parts after count later) {site? : Option Site}
    (done : context.constantSite? index = .ok site?) :
    ∃ new?, later.constantSite? index = .ok new? ∧ Option.Rel renamer.RenamesSite site? new? := by
  have whole := done
  obtain ⟨constant, found, done⟩ := bind_eq_ok.mp done
  rw [reopened.collected.pool] at found
  obtain ⟨renamed, kept, alike⟩ := reopened.edited.pool.get found
  obtain ⟨target, rfl⟩ := alike.exists_repoint
  have slot := (Pool.get_eq_ok.mp found).1
  have newSlot := (Pool.get_eq_ok.mp kept).1
  rw [← reopened.pool] at kept
  cases constant
  case classRef =>
    obtain ⟨name, read, same⟩ := bind_eq_ok.mp done
    cases same
    rw [reopened.collected.pool] at read
    obtain ⟨new, mapped, newRead⟩ := reopened.className reopened.small read
    rw [← reopened.pool] at newRead
    refine ⟨some ⟨.classConstant index, .ofClass new⟩, ?_, .some ⟨rfl, bind_eq_ok.mpr ⟨new, mapped, rfl⟩⟩⟩
    exact bind_eq_ok.mpr ⟨_, kept, bind_eq_ok.mpr ⟨new, newRead, rfl⟩⟩
  case field | method | interfaceMethod =>
    obtain ⟨symbol, read, same⟩ := bind_eq_ok.mp done
    cases same
    obtain ⟨new, newSymbol, newRead⟩ := reopened.memberSymbol read
    exact ⟨_, SiteContext.constantSite?_member newRead, .some ⟨rfl, newSymbol⟩⟩
  case methodType descriptor =>
    obtain ⟨text, read, same⟩ := bind_eq_ok.mp done
    cases same
    rw [reopened.collected.pool] at read
    obtain ⟨newTarget, new, mapped, newSlot, newRead⟩ := reopened.methodType reopened.small slot read
    rw [← reopened.pool] at newSlot newRead
    refine ⟨some ⟨.methodTypeConstant index, .ofDescriptor new⟩, ?_,
      .some ⟨rfl, bind_eq_ok.mpr ⟨new, mapped, rfl⟩⟩⟩
    exact bind_eq_ok.mpr ⟨_, Pool.get_eq_ok.mpr ⟨newSlot, nofun⟩, bind_eq_ok.mpr ⟨new, newRead, rfl⟩⟩
  case dynamic bootstrap pair | invokeDynamic bootstrap pair =>
    obtain ⟨symbol, read, same⟩ := bind_eq_ok.mp done
    cases same
    obtain ⟨-, site, replacement?, siteDone, asked, stores⟩ := reopened.stored reopened.small slot rfl
    cases whole.symm.trans siteDone
    have names : after.pool.Names target _ :=
      names_of_dynamic bootstrap (by first | exact .inl newSlot | exact .inr newSlot) stores
    rw [← reopened.pool] at names
    obtain ⟨new, renamed, newRead⟩ := reopened.callSite read asked names
    refine ⟨some ⟨.dynamicConstant index, new⟩, ?_, .some ⟨rfl, renamed⟩⟩
    exact bind_eq_ok.mpr ⟨_, kept, bind_eq_ok.mpr ⟨new, newRead, rfl⟩⟩
  case methodHandle kind handled =>
    obtain ⟨symbol, read, same⟩ := bind_eq_ok.mp done
    cases same
    obtain ⟨new, newSymbol, newRead⟩ := reopened.memberSymbol read
    refine ⟨some ⟨.memberConstant handled, new.symbol⟩, ?_, .some ⟨rfl, newSymbol⟩⟩
    exact bind_eq_ok.mpr ⟨_, kept, bind_eq_ok.mpr ⟨_, SiteContext.memberSymbol_eq_ok.mpr ⟨new, newRead, rfl⟩, rfl⟩⟩
  all_goals
    cases done
    exact ⟨none, bind_eq_ok.mpr ⟨_, kept, rfl⟩, .none⟩

end ClassFile.Reopened

end JarRename
