import JarRename.Proofs.Hierarchy.Walk
import JarRename.Proofs.Mapping.Table
import JarRename.Proofs.Renaming.Constants
import JarRename.Resolver

/-!
**References and declarations in one class.**

A class that refers to a member of its own names it twice, in a constant and in the declaration. Both are renamed, but
not by the same rule: a reference is resolved through the ancestors of the class, a private or static declaration by
its own entry alone. Owners and descriptors always agree afterwards. Names do too, unless an ancestor has another name
for a member that is private or static here and has no entry of its own.

* `ClassFile.Declares`: a declaration with its names;
* `Renamer.declaredName`, `ClassFile.Outcome.declares`: the declaration after a renaming;
* `Resolver.entry?`, `Resolver.Strays`: when the two rules give different names;
* `ClassFile.agree_of_rename`: references and declarations after a renaming.
-/

namespace JarRename

/-! ### Declarations -/

/-- Where the declaration of a kind of member at a position is stored. -/
def MemberKind.declaration : MemberKind → Nat → Location
  | field, position => .fieldDeclaration position
  | method, position | interfaceMethod, position => .methodDeclaration position

/-- What the declaration of a member stands for. -/
def MemberRef.declared (member : MemberRef) (flags : Flags) : Symbol :=
  match member.kind with
  | .field => .ofField member.owner member.name member.descriptor (some flags)
  | .method | .interfaceMethod => .ofMethod member.owner member.name member.descriptor (some flags)

/-- The new name of a declared member. -/
def Renamer.declaredName (renamer : Renamer) (member : MemberRef) (flags : Flags) : String :=
  match member.kind with
  | .field => (renamer.mapField member.owner member.name member.descriptor (some flags)).getD member.name
  | .method | .interfaceMethod =>
    (renamer.mapMethod member.owner member.name member.descriptor (some flags)).getD member.name

/-- The replacement of a declaration is its new name with its new descriptor. -/
theorem Renamer.replacement?_declared {renamer : Renamer} {member : MemberRef} {flags : Flags}
    {replacement? : Option Replacement} (asked : renamer.replacement? (member.declared flags) = .ok replacement?) :
    ∃ descriptor, renamer.mapDescriptor member.descriptor = .ok descriptor ∧
      replacement?.getD (member.declared flags).stored =
        .nameAndType (renamer.declaredName member flags) descriptor := by
  unfold MemberRef.declared at asked ⊢
  unfold declaredName
  cases kind : member.kind
  all_goals
    rw [kind] at asked
    obtain ⟨descriptor, mapped, same⟩ := bind_eq_ok.mp asked
    cases same
    exact ⟨descriptor, mapped, getD_changedMember _ _ _ _⟩

namespace ClassFile

variable {renamer : Renamer} {resolver : Resolver} {file after : ClassFile} {context : SiteContext}
variable {parts : SiteParts} {count position : Nat} {member : MemberRef} {flags : Flags}

/-- The declarations of a kind of member. -/
def declarations (file : ClassFile) : MemberKind → List Member
  | .field => file.fields
  | .method | .interfaceMethod => file.methods

/-- The class declares the member at a position, with the flags: its owner is the class, and its name and descriptor
are those of the declaration. -/
def Declares (file : ClassFile) (position : Nat) (flags : Flags) (member : MemberRef) : Prop :=
  ∃ declaration, (file.declarations member.kind)[position]? = some declaration ∧ declaration.flags = flags ∧
    file.name = .ok member.owner ∧ file.pool.utf8 declaration.name = .ok member.name ∧
    file.pool.utf8 declaration.descriptor = .ok member.descriptor

/-- Every declaration has its site. -/
theorem Collected.declared (collected : file.Collected context parts)
    (declares : file.Declares position flags member) :
    { location := member.kind.declaration position, symbol := member.declared flags } ∈ parts.all := by
  obtain ⟨declaration, found, rfl, named, nameRead, descriptorRead⟩ := declares
  obtain ⟨-, opened, -⟩ := SiteContext.ofClass_eq_ok.mp collected.opened
  obtain ⟨kind, owner, name, descriptor⟩ := member
  cases named.symm.trans opened
  cases kind
  case field =>
    obtain ⟨_, _, nameAgain, descriptorAgain, site⟩ := collected.field found
    cases nameRead.symm.trans nameAgain
    cases descriptorRead.symm.trans descriptorAgain
    exact site
  all_goals
    obtain ⟨_, _, nameAgain, descriptorAgain, site⟩ := collected.method found
    cases nameRead.symm.trans nameAgain
    cases descriptorRead.symm.trans descriptorAgain
    exact site

/-- **A declaration after a renaming.** It keeps its position and its flags, and has the new names. -/
theorem Outcome.declares (outcome : Outcome renamer file context parts after count)
    (small : file.pool.size ≤ Pool.maxSlots) (declares : file.Declares position flags member) :
    ∃ owner descriptor, renamer.newType member.owner = .ok owner ∧
      renamer.mapDescriptor member.descriptor = .ok descriptor ∧
      after.Declares position flags ⟨member.kind, owner, renamer.declaredName member flags, descriptor⟩ := by
  have stays : (member.kind.declaration position).isInstruction = false := by cases member.kind <;> rfl
  obtain ⟨replacement?, asked, stores⟩ := outcome.stores _ (outcome.collected.declared declares) stays
  obtain ⟨descriptor, mapped, stored⟩ := Renamer.replacement?_declared asked
  obtain ⟨declaration, found, sameFlags, named, -⟩ := declares
  obtain ⟨owner, newOwner, newNamed⟩ := outcome.className small named
  have thisClass : after.thisClass = file.thisClass := congrArg Outline.thisClass outcome.edited.outline
  rw [← thisClass] at newNamed
  have flagsKept : (after.declarations member.kind).map Member.flags =
      (file.declarations member.kind).map Member.flags := by
    cases member.kind
    · exact outcome.edited.fieldFlags
    all_goals exact outcome.edited.methodFlags
  obtain ⟨later, kept, laterFlags⟩ := Member.exists_of_flags flagsKept found
  have reads : after.pool.utf8 later.name = .ok (renamer.declaredName member flags) ∧
      after.pool.utf8 later.descriptor = .ok descriptor := by
    dsimp only at stores
    rw [stored] at stores
    cases kind : member.kind
    all_goals
      rw [kind] at stores kept
      obtain ⟨other, otherKept, newRead⟩ := stores
      cases kept.symm.trans otherKept
      exact newRead
  exact ⟨owner, descriptor, newOwner, mapped, later, kept, laterFlags.trans sameFlags, newNamed, reads⟩

/-- A member that is referred to and declared in a class is still so after a renaming, if the two get one name. -/
theorem Outcome.agree (outcome : Outcome renamer file context parts after count)
    (small : file.pool.size ≤ Pool.maxSlots) {index : Index} (refers : file.pool.memberRef index = .ok member)
    (declares : file.Declares position flags member) :
    ∃ new, after.pool.memberRef index = .ok new ∧ new.name = renamer.memberName member ∧
      after.Declares position flags { new with name := renamer.declaredName member flags } := by
  obtain ⟨new, renames, newRead⟩ := outcome.memberRef small refers
  obtain ⟨owner, descriptor, mapped, mappedDescriptor, newDeclares⟩ := outcome.declares small declares
  cases mapped.symm.trans renames.owner
  cases mappedDescriptor.symm.trans renames.descriptor
  rw [← renames.kind] at newDeclares
  exact ⟨new, newRead, renames.name, newDeclares⟩

/-- A declaration has one name. -/
theorem Declares.name_eq {name : String} (first : file.Declares position flags member)
    (second : file.Declares position flags { member with name := name }) : member.name = name := by
  obtain ⟨declaration, found, -, -, nameRead, -⟩ := first
  obtain ⟨other, otherFound, -, -, otherRead, -⟩ := second
  cases found.symm.trans otherFound
  exact Except.ok.inj (nameRead.symm.trans otherRead)

end ClassFile

namespace Resolver

variable {resolver : Resolver} {member : MemberRef} {flags : Flags}

/-! ### The names of a resolver -/

/-- The entry of a class for the name of a member. Initialisers have none. -/
def entry? (resolver : Resolver) (member : MemberRef) (owner : String) : Option String :=
  match member.kind with
  | .field => resolver.table.field? owner member.name
  | .method | .interfaceMethod =>
    if isInitialiser member.name then none else resolver.table.method? owner member.name member.descriptor

theorem inherited?_none (resolver : Resolver) (owner : String) : resolver.inherited? owner (fun _ => none) = none := by
  simp [inherited?]

/-- A reference is named by the first entry of the class and its ancestors. -/
theorem memberName_renamer (resolver : Resolver) (member : MemberRef) : resolver.renamer.memberName member =
    (resolver.inherited? member.owner (resolver.entry? member)).getD member.name := by
  unfold Renamer.memberName entry?
  cases member.kind
  case field => rfl
  all_goals
    by_cases initialiser : isInitialiser member.name = true
    · simp [renamer, mapMethod, initialiser, inherited?_none]
    · simp [renamer, mapMethod, initialiser, isUninherited, method?]

/-- A declaration is named by the entry of the class, and by those of its ancestors if it can be inherited. -/
theorem declaredName_renamer (resolver : Resolver) (member : MemberRef) (flags : Flags) :
    resolver.renamer.declaredName member flags =
      (if isUninherited (some flags) then resolver.entry? member member.owner
        else resolver.inherited? member.owner (resolver.entry? member)).getD member.name := by
  unfold Renamer.declaredName entry?
  cases member.kind
  case field => rfl
  all_goals
    by_cases initialiser : isInitialiser member.name = true
    · simp [renamer, mapMethod, initialiser, inherited?_none]
    · simp [renamer, mapMethod, initialiser, method?]

/-- The declaration of the member is private or static and has no entry of its own, while the first ancestor that has
an entry for it gives it another name. -/
structure Strays (resolver : Resolver) (flags : Flags) (member : MemberRef) : Prop where
  uninherited : isUninherited (some flags) = true
  own : resolver.entry? member member.owner = none
  ancestor : ∃ new, (resolver.graph.ancestors member.owner).findSome? (resolver.entry? member) = some new ∧
    new ≠ member.name

/-- A straying declaration keeps its name. -/
theorem Strays.declaredName_eq (strays : resolver.Strays flags member) :
    resolver.renamer.declaredName member flags = member.name := by
  rw [declaredName_renamer, if_pos strays.uninherited, strays.own]
  rfl

/-- **Reference and declaration get one name** exactly if the declaration does not stray. -/
theorem memberName_eq_declaredName_iff :
    resolver.renamer.memberName member = resolver.renamer.declaredName member flags ↔
      ¬resolver.Strays flags member := by
  rw [memberName_renamer, declaredName_renamer]
  by_cases uninherited : isUninherited (some flags) = true
  · rw [if_pos uninherited, inherited?]
    cases own : resolver.entry? member member.owner with
    | some new => exact iff_of_true rfl fun strays => nomatch own.symm.trans strays.own
    | none =>
      cases found : (resolver.graph.ancestors member.owner).findSome? (resolver.entry? member) with
      | none =>
        refine iff_of_true rfl fun strays => ?_
        obtain ⟨new, answered, -⟩ := strays.ancestor
        cases found.symm.trans answered
      | some new =>
        constructor
        · intro same strays
          obtain ⟨_, answered, other⟩ := strays.ancestor
          cases found.symm.trans answered
          exact other same
        · intro agrees
          by_contra other
          exact agrees ⟨uninherited, own, new, found, other⟩
  · rw [if_neg uninherited]
    exact iff_of_true rfl fun strays => uninherited strays.uninherited

end Resolver

namespace ClassFile

variable {resolver : Resolver} {file after : ClassFile} {count position : Nat} {member : MemberRef} {flags : Flags}

/-- **References and declarations stay in agreement**, in owner and descriptor always and in the name exactly if the
declaration does not stray. A straying declaration keeps its name. -/
theorem agree_of_rename {bytes : Bytes} (parsed : parse bytes = .ok file)
    (renamed : file.rename resolver.renamer = .ok (after, count)) {index : Index}
    (refers : file.pool.memberRef index = .ok member) (declares : file.Declares position flags member) :
    ∃ new, after.pool.memberRef index = .ok new ∧
      (after.Declares position flags new ↔ ¬resolver.Strays flags member) ∧
      (resolver.Strays flags member → after.Declares position flags { new with name := member.name }) := by
  have small := small_of_parse parsed
  obtain ⟨context, parts, outcome⟩ := outcome_of_rename small renamed
  obtain ⟨new, newRead, named, newDeclares⟩ := outcome.agree small refers declares
  refine ⟨new, newRead, ?_, fun strays => strays.declaredName_eq ▸ newDeclares⟩
  rw [← Resolver.memberName_eq_declaredName_iff, ← named]
  constructor
  · exact fun agrees => agrees.name_eq newDeclares
  · intro same
    rw [← same] at newDeclares
    exact newDeclares

end ClassFile

/-! ### A field that its superclass has, too -/

namespace Resolver

/-- The classes `Base` and `Derived`, which extends it. -/
def family : Graph :=
  (({} : Graph).insert { name := "Base", superName := none, interfaces := [], flags := 1 }).insert
    { name := "Derived", superName := some "Base", interfaces := [], flags := 0x21 }

/-- The field `f` of `Base` is renamed to `g`. -/
def familyEntries : List Mapping.Numbered :=
  [(1, .ofField "Base" "f" "g")]

/-- What the resolver of the family answers. -/
def familyRenamer : Renamer where
  mapClass := fun _ => none
  mapField := fun owner name _ declared =>
    if name = "f" ∧ (owner = "Base" ∨ owner = "Derived" ∧ isUninherited declared = false) then some "g" else none
  mapMethod := fun _ _ _ _ => none

theorem get?_family (name : String) : family.get? name =
    if name = "Base" then some { name := "Base", superName := none, interfaces := [], flags := 1 }
    else if name = "Derived" then some { name := "Derived", superName := some "Base", interfaces := [], flags := 0x21 }
    else none := by
  simp only [family, Graph.get?_insert, Graph.get?_empty, Option.none_or, eq_comm]
  split_ifs <;> rfl

theorem ancestors_family (name : String) : family.ancestors name = if name = "Derived" then ["Base"] else [] := by
  rw [Graph.ancestors_eq_lineage, Graph.lineage, get?_family]
  split_ifs <;>
    simp_all [Graph.superclasses, Graph.superChain_eq, Graph.interfaceWalk, get?_family]

theorem exists_family : ∃ table, Table.ofEntries familyEntries .forward = .ok table ∧
    (Resolver.mk table family).renamer = familyRenamer := by
  obtain ⟨table, done⟩ : ∃ table, Table.ofForward familyEntries = .ok table :=
    Table.exists_ofForward_iff.mpr ⟨by simp [familyEntries, Mapping.Entry.Readable], by decide +kernel⟩
  have classes (name : String) : table.class? name = none :=
    Table.get?_ofForward_eq_none done (.ofClass name) (by simp [familyEntries, Mapping.Entry.key])
  have methods (owner name descriptor : String) : table.method? owner name descriptor = none :=
    Table.get?_ofForward_eq_none done (.ofMethod owner name descriptor) (by simp [familyEntries, Mapping.Entry.key])
  have fields (owner name : String) : table.field? owner name =
      if owner = "Base" ∧ name = "f" then some "g" else none := by
    refine Option.ext fun new => (Table.holds_ofForward done (.ofField owner name new)).trans ?_
    simp [familyEntries, and_assoc, eq_comm]
  refine ⟨table, Table.ofEntries_forward.trans done, ?_⟩
  unfold renamer familyRenamer
  congr 1
  · funext name
    exact classes name
  · funext owner name descriptor declared
    simp only [mapField, field?, inherited?, ancestors_family, fields]
    by_cases named : name = "f"
    · by_cases base : owner = "Base"
      · simp [named, base]
      · by_cases derived : owner = "Derived" <;> cases isUninherited declared <;> simp [named, base, derived]
    · by_cases derived : owner = "Derived" <;> simp [named, derived]
  · funext owner name descriptor declared
    simp [mapMethod, method?, inherited?, methods]

end Resolver

namespace ClassFile

/-- The class `Derived` with a field `f` of its own, which a constant refers to. -/
def derivedBytes (flags : UInt8) : Bytes :=
  [0xCA, 0xFE, 0xBA, 0xBE, 0x00, 0x00, 0x00, 0x34, 0x00, 0x09,
    0x01, 0x00, 0x07, 0x44, 0x65, 0x72, 0x69, 0x76, 0x65, 0x64,
    0x07, 0x00, 0x01,
    0x01, 0x00, 0x04, 0x42, 0x61, 0x73, 0x65,
    0x07, 0x00, 0x03,
    0x01, 0x00, 0x01, 0x66,
    0x01, 0x00, 0x01, 0x49,
    0x0C, 0x00, 0x05, 0x00, 0x06,
    0x09, 0x00, 0x02, 0x00, 0x07,
    0x00, 0x21, 0x00, 0x02, 0x00, 0x04, 0x00, 0x00,
    0x00, 0x01, 0x00, flags, 0x00, 0x05, 0x00, 0x06, 0x00, 0x00,
    0x00, 0x00,
    0x00, 0x00]

/-- The class file in these bytes. -/
def derived (flags : Flags) : ClassFile where
  minor := 0
  major := 52
  pool.slots := #[.utf8 [0x44, 0x65, 0x72, 0x69, 0x76, 0x65, 0x64], .classRef 1, .utf8 [0x42, 0x61, 0x73, 0x65],
    .classRef 3, .utf8 [0x66], .utf8 [0x49], .nameAndType 5 6, .field 2 7]
  flags := 0x21
  thisClass := 2
  superClass := some 4
  interfaces := []
  fields := [{ flags, name := 5, descriptor := 6, attributes := [] }]
  methods := []
  attributes := []

/-- The class with the reference renamed to `g`, and its field to the text at an index. -/
def derivedRenamed (flags : Flags) (name : Index) : ClassFile :=
  { derived flags with
    pool.slots := #[.utf8 [0x44, 0x65, 0x72, 0x69, 0x76, 0x65, 0x64], .classRef 1, .utf8 [0x42, 0x61, 0x73, 0x65],
      .classRef 3, .utf8 [0x66], .utf8 [0x49], .nameAndType 5 6, .field 2 10, .utf8 [0x67], .nameAndType 9 6]
    fields := [{ flags, name, descriptor := 6, attributes := [] }] }

theorem agree_of_rename_public : ∃ table, Table.ofEntries Resolver.familyEntries .forward = .ok table ∧
    (derived 1).rename (Resolver.mk table Resolver.family).renamer = .ok (derivedRenamed 1 9, 2) ∧
    ∃ new, (derivedRenamed 1 9).pool.memberRef 8 = .ok new ∧ (derivedRenamed 1 9).Declares 0 1 new := by
  obtain ⟨table, built, answers⟩ := Resolver.exists_family
  have parsed : parse (derivedBytes 1) = .ok (derived 1) := by decide +kernel
  have renamed : (derived 1).rename (Resolver.mk table Resolver.family).renamer = .ok (derivedRenamed 1 9, 2) := by
    rw [answers]
    decide +kernel
  have refers : (derived 1).pool.memberRef 8 = .ok ⟨.field, "Derived", "f", "I"⟩ := by decide +kernel
  have declares : (derived 1).Declares 0 1 ⟨.field, "Derived", "f", "I"⟩ :=
    ⟨_, rfl, rfl, by decide +kernel, by decide +kernel, by decide +kernel⟩
  obtain ⟨new, newRead, agrees, -⟩ := agree_of_rename parsed renamed refers declares
  refine ⟨table, built, renamed, new, newRead, agrees.mpr fun strays => ?_⟩
  exact absurd strays.uninherited (by decide)

/-- **A private field loses its reference.** The reference gets the name of the field of the superclass, the
declaration keeps its own. -/
theorem disagree_private : ∃ table, Table.ofEntries Resolver.familyEntries .forward = .ok table ∧
    parse (derivedBytes 2) = .ok (derived 2) ∧
    (∃ header, (derived 2).header = .ok header ∧ Resolver.family.get? "Derived" = some header) ∧
    (derived 2).rename (Resolver.mk table Resolver.family).renamer = .ok (derivedRenamed 2 5, 1) ∧
    (derived 2).pool.memberRef 8 = .ok ⟨.field, "Derived", "f", "I"⟩ ∧
    (derived 2).Declares 0 2 ⟨.field, "Derived", "f", "I"⟩ ∧
    (derivedRenamed 2 5).pool.memberRef 8 = .ok ⟨.field, "Derived", "g", "I"⟩ ∧
    (derivedRenamed 2 5).Declares 0 2 ⟨.field, "Derived", "f", "I"⟩ ∧
    ¬(derivedRenamed 2 5).Declares 0 2 ⟨.field, "Derived", "g", "I"⟩ := by
  obtain ⟨table, built, answers⟩ := Resolver.exists_family
  have declares : (derivedRenamed 2 5).Declares 0 2 ⟨.field, "Derived", "f", "I"⟩ :=
    ⟨_, rfl, rfl, by decide +kernel, by decide +kernel, by decide +kernel⟩
  refine ⟨table, built, by decide +kernel, ⟨_, ?_, Resolver.get?_family _⟩, ?_, by decide +kernel, ?_,
    by decide +kernel, declares, fun other => ?_⟩
  · decide +kernel
  · rw [answers]
    decide +kernel
  · exact ⟨_, rfl, rfl, by decide +kernel, by decide +kernel, by decide +kernel⟩
  · exact absurd (declares.name_eq other) (by decide)

end ClassFile

end JarRename
