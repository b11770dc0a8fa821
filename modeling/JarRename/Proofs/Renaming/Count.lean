import JarRename.Proofs.Renaming.InnerName
import JarRename.Proofs.Renaming.Run
import JarRename.Proofs.Renaming.Unmapped
import JarRename.Proofs.Renaming.Frame

/-!
**What the number of changes counts.**

A site counts as changed if its symbol has a replacement. Members, descriptors, signatures, nested classes, components
and array classes have one only if it differs from what they hold. A class constant has one as soon as the renamer
answers, also with the name that the class has. So the count is the number of sites whose texts differ afterwards, and
of those class constants.

* `ClassFile.held?`, `ClassFile.changedBetween`: the texts at a location, and sites at which they differ;
* `Renamer.confirms`, `Renamer.replacement?_eq_stored`: class constants whose names are confirmed;
* `ClassFile.count_of_run`: a run counts the sites with replacements, by induction over them;
* `Renamer.Echoes`, `Renamer.unsettles`: renamers that give everything its own name, and what they change all the same;
* `ClassFile.count_of_rename`: what the count of a class is, and what a count of zero means.
-/

namespace JarRename

/-! ### What a location holds -/

/-- The texts that an index stands for: a text, or a name and a descriptor. -/
def Pool.named? (pool : Pool) (index : Index) : Option Replacement :=
  match pool.utf8 index, pool.nameAndType index with
  | .ok text, _ => some (.text text)
  | _, .ok (name, descriptor) => some (.nameAndType name descriptor)
  | _, _ => none

theorem Pool.named?_of_names {pool : Pool} {index : Index} {replacement : Replacement}
    (names : pool.Names index replacement) : pool.named? index = some replacement := by
  unfold named?
  cases replacement with
  | text value =>
    have read : pool.utf8 index = .ok value := names
    rw [read]
  | nameAndType name descriptor =>
    have read : pool.nameAndType index = .ok (name, descriptor) := names
    obtain ⟨first, second, slot, -⟩ := nameAndType_eq_ok.mp read
    cases text : pool.utf8 index with
    | error cause => rw [read]
    | ok value =>
      obtain ⟨bytes, other, -⟩ := utf8_eq_ok.mp text
      cases slot.symm.trans other

/-- The index of the name, the descriptor or the name and type in a constant. -/
def Constant.naming? : Constant → Option Index
  | classRef name => some name
  | methodType descriptor => some descriptor
  | field _ pair | method _ pair | interfaceMethod _ pair => some pair
  | dynamic _ pair | invokeDynamic _ pair => some pair
  | _ => none

namespace ClassFile

/-- The texts of a declaration. -/
def declared? (pool : Pool) (member : Member) : Option Replacement :=
  match pool.utf8 member.name, pool.utf8 member.descriptor with
  | .ok name, .ok descriptor => some (.nameAndType name descriptor)
  | _, _ => none

/-- **The texts at a location**, without those of owners. -/
def held? (file : ClassFile) : Location → Option Replacement
  | .classConstant index | .memberConstant index | .methodTypeConstant index | .dynamicConstant index =>
    ((file.pool.slot? index).bind Constant.naming?).bind file.pool.named?
  | .fieldDeclaration position => (file.fields[position]?).bind (declared? file.pool)
  | .methodDeclaration position => (file.methods[position]?).bind (declared? file.pool)
  | .inAttribute owner position offset =>
    ((file.attributesOf owner)[position]?).bind fun item => (item.data.peek offset).toOption.bind file.pool.named?
  | .instruction _ _ _ => none

variable {file after : ClassFile} {location : Location} {replacement : Replacement}

/-- A location holds what is stored there. -/
theorem held?_of_stores (stores : file.Stores location replacement) : file.held? location = some replacement := by
  cases location with
  | classConstant index =>
    cases replacement with
    | nameAndType name descriptor => cases stores
    | text value =>
      obtain ⟨name, slot, read⟩ := stores
      have names : file.pool.Names name (.text value) := read
      simp only [held?, slot, Option.bind_some, Constant.naming?, Pool.named?_of_names names]
  | methodTypeConstant index =>
    cases replacement with
    | nameAndType name descriptor => cases stores
    | text value =>
      obtain ⟨descriptor, slot, read⟩ := stores
      have names : file.pool.Names descriptor (.text value) := read
      simp only [held?, slot, Option.bind_some, Constant.naming?, Pool.named?_of_names names]
  | memberConstant index =>
    cases replacement with
    | text value => cases stores
    | nameAndType name descriptor =>
      obtain ⟨kind, owner, pair, slot, read⟩ := stores
      have names : file.pool.Names pair (.nameAndType name descriptor) := read
      have naming : (kind.constant owner pair).naming? = some pair := by cases kind <;> rfl
      simp only [held?, slot, Option.bind_some, naming, Pool.named?_of_names names]
  | dynamicConstant index =>
    cases replacement with
    | text value => cases stores
    | nameAndType name descriptor =>
      obtain ⟨bootstrap, pair, slot, read⟩ := stores
      have names : file.pool.Names pair (.nameAndType name descriptor) := read
      rcases slot with slot | slot
      all_goals simp only [held?, slot, Option.bind_some, Constant.naming?, Pool.named?_of_names names]
  | fieldDeclaration position =>
    cases replacement with
    | text value => cases stores
    | nameAndType name descriptor =>
      obtain ⟨field, found, nameRead, descriptorRead⟩ := stores
      simp only [held?, found, Option.bind_some, declared?, nameRead, descriptorRead]
  | methodDeclaration position =>
    cases replacement with
    | text value => cases stores
    | nameAndType name descriptor =>
      obtain ⟨method, found, nameRead, descriptorRead⟩ := stores
      simp only [held?, found, Option.bind_some, declared?, nameRead, descriptorRead]
  | inAttribute owner position offset =>
    obtain ⟨item, index, found, peeked, names⟩ := stores
    simp only [held?, found, Option.bind_some, peeked, Except.toOption, Pool.named?_of_names names]
  | instruction method pc index => cases replacement <;> cases stores

/-- The site is no operand, and its texts differ between two states of a class. -/
def changedBetween (before after : ClassFile) (site : Site) : Bool :=
  !site.location.isInstruction && before.held? site.location != after.held? site.location

end ClassFile

/-! ### Names that are confirmed -/

namespace Renamer

variable {renamer : Renamer} {symbol : Symbol}

/-- The renamer answers for a class with the name that the class has. -/
def confirms (renamer : Renamer) : Symbol → Bool
  | .ofClass name => !isArray name && renamer.mapClass name == some name
  | _ => false

/-- A symbol has a replacement. -/
def replaces (renamer : Renamer) (symbol : Symbol) : Bool :=
  match renamer.replacement? symbol with
  | .ok (some _) => true
  | _ => false

theorem changed_ne {old : String} (new : String) : changed old new ≠ some (.text old) := by
  unfold changed
  split_ifs with same
  · nofun
  · intro equal
    cases equal
    exact same rfl

theorem changedMember_ne {name descriptor : String} (newName : Option String) (newDescriptor : String) :
    changedMember name descriptor newName newDescriptor ≠ some (.nameAndType name descriptor) := by
  unfold changedMember
  dsimp only
  split_ifs with same
  · nofun
  · intro equal
    obtain ⟨sameName, sameDescriptor⟩ := Replacement.nameAndType.inj (Option.some.inj equal)
    rw [sameName, sameDescriptor] at same
    exact same (by simp)

/-- **A symbol is replaced by what is stored for it** only if it is a class with a confirmed name. -/
theorem replacement?_eq_stored :
    renamer.replacement? symbol = .ok (some symbol.stored) ↔ renamer.confirms symbol = true := by
  have member {name descriptor : String} {new? : Option String} :
      ¬(do return changedMember name descriptor new? (← renamer.mapDescriptor descriptor)) =
        Except.ok (some (Replacement.nameAndType name descriptor)) := by
    intro done
    obtain ⟨new, -, same⟩ := bind_eq_ok.mp done
    exact changedMember_ne _ _ (pure_eq_ok.mp same)
  cases symbol with
  | ofClass name =>
    have opened : renamer.replacement? (.ofClass name) = .ok (some (.text name)) ↔
        renamer.mapType name = .ok (some name) := by
      simp only [replacement?, bind_eq_ok, pure_eq_ok]
      simp
    show renamer.replacement? (.ofClass name) = .ok (some (.text name)) ↔
      (!isArray name && renamer.mapClass name == some name) = true
    rw [opened, mapType]
    by_cases array : isArray name = true
    · -- an array class is compared with its name
      rw [if_pos array, array]
      refine iff_of_false (fun done => ?_) Bool.false_ne_true
      obtain ⟨mapped, -, compared⟩ := bind_eq_ok.mp done
      rw [pure_eq_ok] at compared
      split_ifs at compared with kept
      exact kept (Option.some.inj compared)
    · rw [if_neg array, Bool.eq_false_iff.mpr array, pure_eq_ok]
      simp
  | ofField owner name descriptor declared => exact iff_of_false member Bool.false_ne_true
  | ofMethod owner name descriptor declared => exact iff_of_false member Bool.false_ne_true
  | enclosingMethod owner name descriptor => exact iff_of_false member Bool.false_ne_true
  | callSite site => exact iff_of_false member Bool.false_ne_true
  | ofDescriptor descriptor =>
    refine iff_of_false (fun done => ?_) Bool.false_ne_true
    obtain ⟨new, -, same⟩ := bind_eq_ok.mp done
    exact changed_ne new (pure_eq_ok.mp same)
  | ofSignature signature =>
    refine iff_of_false (fun done => ?_) Bool.false_ne_true
    obtain ⟨new, -, same⟩ := bind_eq_ok.mp done
    exact changed_ne new (pure_eq_ok.mp same)
  | innerName inner name =>
    refine iff_of_false (fun done => ?_) Bool.false_ne_true
    obtain ⟨simple, mapped, same⟩ := Option.map_eq_some_iff.mp (pure_eq_ok.mp done)
    obtain ⟨new, -, -, -, -, differs⟩ := mapInnerName_eq_some.mp mapped
    exact differs (Replacement.text.inj same)
  | recordComponent owner name descriptor =>
    refine iff_of_false (fun done => ?_) Bool.false_ne_true
    obtain ⟨new, -, same⟩ := Option.bind_eq_some_iff.mp (pure_eq_ok.mp done)
    exact changed_ne new same

/-! ### Renamers that echo -/

/-- Every answer of the renamer is the name that it is asked about. -/
structure Echoes (renamer : Renamer) : Prop where
  ofClass : ∀ name new, renamer.mapClass name = some new → new = name
  ofField : ∀ owner name descriptor declared new,
    renamer.mapField owner name descriptor declared = some new → new = name
  ofMethod : ∀ owner name descriptor declared new,
    renamer.mapMethod owner name descriptor declared = some new → new = name

/-- **What a renamer that echoes replaces all the same**: classes that it answers for, signatures with characters left
behind, and simple names of nested classes without a package that are not those in the names of the classes. -/
def unsettles (renamer : Renamer) : Symbol → Bool
  | .ofSignature signature => !(Signature.leftover signature).isEmpty
  | .innerName inner name =>
    renamer.mapClass inner == some inner && !inner.toList.contains '/' && inner.toList.contains '$' &&
      simpleName inner.toList != name.toList
  | symbol => renamer.confirms symbol

namespace Echoes

theorem renameOrKeep_eq (echoes : renamer.Echoes) (name : String) : renameOrKeep renamer.mapClass name = name := by
  unfold renameOrKeep
  cases answer : renamer.mapClass name with
  | none => rfl
  | some new => exact echoes.ofClass name new answer

theorem eq_of_mapDescriptor (echoes : renamer.Echoes) {descriptor new : String}
    (mapped : renamer.mapDescriptor descriptor = .ok new) : new = descriptor := by
  rcases Descriptor.rename_of_kept fun name _ => echoes.renameOrKeep_eq name with kept | ⟨cause, failed, -⟩
  · exact Except.ok.inj (mapped.symm.trans kept)
  · cases mapped.symm.trans failed

theorem changed_mapDescriptor (echoes : renamer.Echoes) {descriptor new : String}
    (mapped : renamer.mapDescriptor descriptor = .ok new) : changed descriptor new = none := by
  rw [echoes.eq_of_mapDescriptor mapped, changed_self]

/-- A member keeps its name and its descriptor. -/
theorem changedMember_mapDescriptor (echoes : renamer.Echoes) {name descriptor new : String} {new? : Option String}
    (same : ∀ newName, new? = some newName → newName = name)
    (mapped : renamer.mapDescriptor descriptor = .ok new) : changedMember name descriptor new? new = none := by
  rw [echoes.eq_of_mapDescriptor mapped]
  cases new? with
  | none => exact changedMember_self name descriptor
  | some newName => rw [same newName rfl, ← changedMember_self name descriptor]; rfl

/-- A signature is replaced if it loses what is left behind it. -/
theorem changed_mapSignature (echoes : renamer.Echoes) {signature new : String}
    (mapped : renamer.mapSignature signature = .ok new) :
    (changed signature new).isSome = !(Signature.leftover signature).isEmpty := by
  have whole := Signature.append_of_rename (fun name _ => echoes.renameOrKeep_eq name) mapped
  unfold changed
  split_ifs with same
  · rw [← same, List.self_eq_append_right] at whole
    rw [whole]
    rfl
  · by_cases complete : Signature.leftover signature = []
    · rw [complete, List.append_nil] at whole
      exact absurd (String.toList_injective whole) same
    · rw [List.isEmpty_eq_false_iff.mpr complete]
      rfl

/-- A call site that makes lambdas keeps its name. -/
theorem eq_of_mapCallSiteName (echoes : renamer.Echoes) (site : CallSite) (new : String)
    (mapped : renamer.mapCallSiteName site = some new) : new = site.name := by
  obtain ⟨lambda, -, answer⟩ := Option.bind_eq_some_iff.mp mapped
  exact echoes.ofMethod _ _ _ _ _ answer

/-- A class is replaced if its name is confirmed. -/
theorem isSome_of_mapType (echoes : renamer.Echoes) {name : String} {answer : Option String}
    (mapped : renamer.mapType name = .ok answer) : answer.isSome = renamer.confirms (.ofClass name) := by
  show answer.isSome = (!isArray name && renamer.mapClass name == some name)
  unfold mapType at mapped
  by_cases array : isArray name = true
  · rw [if_pos array] at mapped
    obtain ⟨new, renamed, compared⟩ := bind_eq_ok.mp mapped
    rw [← pure_eq_ok.mp compared, if_pos (echoes.eq_of_mapDescriptor renamed), array]
    rfl
  · rw [if_neg array, pure_eq_ok] at mapped
    rw [Bool.eq_false_iff.mpr array, ← mapped]
    cases renamed : renamer.mapClass name with
    | none => rfl
    | some new =>
      rw [echoes.ofClass name new renamed]
      simp

theorem mapInnerName_isSome (echoes : renamer.Echoes) (inner name : String) :
    (renamer.mapInnerName inner name).isSome = renamer.unsettles (.innerName inner name) := by
  have alone : sameAfterPackage inner.toList inner.toList = inner.toList.contains '/' := by simp [sameAfterPackage]
  have opened : renamer.unsettles (.innerName inner name) = true ↔ renamer.mapClass inner = some inner ∧
      sameAfterPackage inner.toList inner.toList = false ∧ '$' ∈ inner.toList ∧
        simpleName inner.toList ≠ name.toList := by
    rw [alone]
    simp [unsettles, and_assoc]
  rw [Bool.eq_iff_iff, opened, Option.isSome_iff_exists]
  simp only [mapInnerName_eq_some]
  constructor
  · intro ⟨simple, new, renamed, moved, nested, isSimple, differs⟩
    obtain rfl := echoes.ofClass inner new renamed
    refine ⟨renamed, moved, nested, fun same => differs ?_⟩
    exact String.toList_injective (isSimple.trans same)
  · intro ⟨renamed, moved, nested, differs⟩
    refine ⟨String.ofList (simpleName inner.toList), inner, renamed, moved, nested, String.toList_ofList, ?_⟩
    intro same
    rw [← same, String.toList_ofList] at differs
    exact differs rfl

/-- **A symbol of a renamer that echoes** is replaced if it is one of those. -/
theorem replaces_eq (echoes : renamer.Echoes) {replacement? : Option Replacement}
    (asked : renamer.replacement? symbol = .ok replacement?) : renamer.replaces symbol = renamer.unsettles symbol := by
  have replaces : renamer.replaces symbol = replacement?.isSome := by
    unfold replaces
    rw [asked]
    cases replacement? <;> rfl
  rw [replaces]
  cases symbol with
  | ofClass name =>
    obtain ⟨answer, mapped, same⟩ := bind_eq_ok.mp asked
    rw [← pure_eq_ok.mp same, Option.isSome_map]
    exact echoes.isSome_of_mapType mapped
  | ofField owner name descriptor declared =>
    obtain ⟨new, mapped, same⟩ := bind_eq_ok.mp asked
    have answer := echoes.ofField owner name descriptor declared
    rw [← pure_eq_ok.mp same, echoes.changedMember_mapDescriptor answer mapped]
    rfl
  | ofMethod owner name descriptor declared =>
    obtain ⟨new, mapped, same⟩ := bind_eq_ok.mp asked
    have answer := echoes.ofMethod owner name descriptor declared
    rw [← pure_eq_ok.mp same, echoes.changedMember_mapDescriptor answer mapped]
    rfl
  | enclosingMethod owner name descriptor =>
    obtain ⟨new, mapped, same⟩ := bind_eq_ok.mp asked
    rw [← pure_eq_ok.mp same, echoes.changedMember_mapDescriptor (echoes.ofMethod owner name descriptor none) mapped]
    rfl
  | callSite site =>
    obtain ⟨new, mapped, same⟩ := bind_eq_ok.mp asked
    rw [← pure_eq_ok.mp same, echoes.changedMember_mapDescriptor (echoes.eq_of_mapCallSiteName site) mapped]
    rfl
  | ofDescriptor descriptor =>
    obtain ⟨new, mapped, same⟩ := bind_eq_ok.mp asked
    rw [← pure_eq_ok.mp same, echoes.changed_mapDescriptor mapped]
    rfl
  | ofSignature signature =>
    obtain ⟨new, mapped, same⟩ := bind_eq_ok.mp asked
    rw [← pure_eq_ok.mp same]
    exact echoes.changed_mapSignature mapped
  | innerName inner name =>
    rw [← pure_eq_ok.mp asked, Option.isSome_map]
    exact echoes.mapInnerName_isSome inner name
  | recordComponent owner name descriptor =>
    rw [← pure_eq_ok.mp asked]
    cases answer : renamer.mapField owner name descriptor (some componentFlags) with
    | none => rfl
    | some new =>
      rw [echoes.ofField _ _ _ _ _ answer, Option.bind_some, changed_self]
      rfl

end Echoes

end Renamer

/-! ### The count of a run -/

namespace ClassFile

variable {renamer : Renamer} {file after : ClassFile} {sites : List Site} {start count : Nat}

/-- The site is no operand, and its symbol has a replacement. -/
def replacedBy (renamer : Renamer) (site : Site) : Bool :=
  !site.location.isInstruction && renamer.replaces site.symbol

/-- The site is no operand, and the name of its class is confirmed. -/
def confirmedBy (renamer : Renamer) (site : Site) : Bool :=
  !site.location.isInstruction && renamer.confirms site.symbol

theorem count_of_site {site : Site} {changes : Nat} (step : renameSite renamer site file = .ok changes after) :
    changes = if replacedBy renamer site then 1 else 0 := by
  unfold renameSite at step
  unfold replacedBy Renamer.replaces
  by_cases operand : site.location.isInstruction = true
  · rw [if_pos operand] at step
    rw [operand]
    exact (edit_pure_eq_ok.mp step).1.symm
  · rw [if_neg operand] at step
    rw [Bool.eq_false_iff.mpr operand]
    cases asked : renamer.replacement? site.symbol with
    | error cause =>
      rw [asked] at step
      cases step
    | ok replacement? =>
      rw [asked] at step
      cases replacement? with
      | none => exact (edit_pure_eq_ok.mp step).1.symm
      | some replacement =>
        obtain ⟨-, middle, -, done⟩ := edit_bind_eq_ok.mp step
        exact (edit_pure_eq_ok.mp done).1.symm

/-- **A run counts the sites with replacements.** -/
theorem count_of_run (done : renameFrom renamer sites start file = .ok count after) :
    count = start + sites.countP (replacedBy renamer) := by
  induction sites generalizing file start with
  | nil => exact (edit_pure_eq_ok.mp done).1.symm
  | cons site sites ih =>
    obtain ⟨changes, middle, step, rest⟩ := renameFrom_cons.mp done
    rw [ih rest, List.countP_cons, count_of_site step]
    omega

/-- A site with a replacement either differs afterwards or is a class with a confirmed name. -/
theorem replacedBy_of_stores {site : Site}
    (before : site.location.isInstruction = false → file.Stores site.location site.symbol.stored)
    (stored : site.location.isInstruction = false → ∃ replacement?,
      renamer.replacement? site.symbol = .ok replacement? ∧
        after.Stores site.location (replacement?.getD site.symbol.stored)) :
    (if replacedBy renamer site then 1 else 0) =
      (if changedBetween file after site then 1 else 0) + if confirmedBy renamer site then 1 else 0 := by
  unfold replacedBy changedBetween confirmedBy Renamer.replaces
  by_cases operand : site.location.isInstruction = true
  · rw [operand]
    rfl
  · rw [Bool.not_eq_true] at operand
    obtain ⟨replacement?, asked, holds⟩ := stored operand
    have confirmed : renamer.replacement? site.symbol = _ ↔ _ := Renamer.replacement?_eq_stored
    rw [asked, Except.ok.injEq] at confirmed
    rw [operand, asked, held?_of_stores (before operand), held?_of_stores holds]
    cases replacement? with
    | none =>
      have unconfirmed := (not_congr confirmed).mp nofun
      simp [unconfirmed]
    | some replacement =>
      by_cases same : replacement = site.symbol.stored
      · simp [same, confirmed.mp (congrArg some same)]
      · have unconfirmed := (not_congr confirmed).mp fun equal => same (Option.some.inj equal)
        simp [unconfirmed, Ne.symm same]

/-! ### The count of a class -/

/-- The site is no operand, and a renamer that echoes replaces its symbol all the same. -/
def unsettledBy (renamer : Renamer) (site : Site) : Bool :=
  !site.location.isInstruction && renamer.unsettles site.symbol

/-- Sites of one sort are those of two sorts that exclude each other. -/
theorem countP_eq_add {whole first second : Site → Bool}
    (split : ∀ site ∈ sites,
      (if whole site then 1 else 0) = (if first site then 1 else 0) + if second site then 1 else 0) :
    sites.countP whole = sites.countP first + sites.countP second := by
  induction sites with
  | nil => rfl
  | cons site sites ih =>
    obtain ⟨here, later⟩ := List.forall_mem_cons.mp split
    rw [List.countP_cons, List.countP_cons, List.countP_cons, ih later, here]
    omega

/-- **The count of a class** is the number of the sites whose own texts differ afterwards and of the class constants
with confirmed names. A renamer that echoes gets the number of the sites that it replaces all the same. If the count
is zero, the bytes stay as they are. -/
theorem count_of_rename {bytes : Bytes} (parsed : parse bytes = .ok file)
    (renamed : file.rename renamer = .ok (after, count)) :
    ∃ sites, file.sites = .ok sites ∧
      count = sites.countP (changedBetween file after) + sites.countP (confirmedBy renamer) ∧
      (renamer.Echoes → count = sites.countP (unsettledBy renamer)) ∧
      (count = 0 → ∃ name, file.name = .ok name ∧
        renameBytes renamer bytes = .ok { oldName := name, newName := name, bytes, changes := 0 }) := by
  have small := small_of_parse parsed
  obtain ⟨sites, found, run⟩ := rename_eq_ok.mp renamed
  obtain ⟨context, parts, collected, rfl⟩ := sites_eq_ok.mp found
  have stores : ∀ site ∈ parts.all, site.location.isInstruction = false →
      file.Stores site.location site.symbol.stored := fun site member => collected.stores small member
  have stored := stores_of_run small (collected.pairwise_apart small) stores run
  have counted := count_of_run run
  rw [Nat.zero_add] at counted
  refine ⟨parts.all, found, counted.trans (countP_eq_add fun site member => ?_), fun echoes => ?_, fun none => ?_⟩
  · exact replacedBy_of_stores (stores site member) (stored site member)
  · refine counted.trans (List.countP_congr fun site member => ?_)
    unfold replacedBy unsettledBy
    cases operand : site.location.isInstruction with
    | true => rfl
    | false =>
      obtain ⟨replacement?, asked, -⟩ := stored site member operand
      rw [echoes.replaces_eq asked]
  · obtain ⟨-, named, -⟩ := SiteContext.ofClass_eq_ok.mp collected.opened
    refine ⟨context.name, named, ?_⟩
    rw [none] at renamed
    rw [renameBytes, parsed, ok_bind, named, ok_bind, renamed, ok_bind]
    rfl

/-- The renamer that gives `A` its own name changes one site of the sample, and no text. -/
theorem count_of_rename_echo : parse sampleBytes = .ok sample ∧
    sample.rename (Renamer.ofClass "A" "A") = .ok (sample, 1) ∧
    ∃ sites, sample.sites = .ok sites ∧
      1 = sites.countP (changedBetween sample sample) + sites.countP (confirmedBy (Renamer.ofClass "A" "A")) ∧
      ((Renamer.ofClass "A" "A").Echoes → 1 = sites.countP (unsettledBy (Renamer.ofClass "A" "A"))) ∧
      (1 = 0 → ∃ name, sample.name = .ok name ∧ renameBytes (Renamer.ofClass "A" "A") sampleBytes =
        .ok { oldName := name, newName := name, bytes := sampleBytes, changes := 0 }) :=
  have parsed : parse sampleBytes = .ok sample := by decide +kernel
  have renamed : sample.rename (Renamer.ofClass "A" "A") = .ok (sample, 1) := by decide +kernel
  ⟨parsed, renamed, count_of_rename parsed renamed⟩

/-- The count is not the number of the sites whose texts differ. -/
theorem not_forall_count_of_rename :
    ¬∀ (renamer : Renamer) (bytes : Bytes) (file after : ClassFile) (count : Nat), parse bytes = .ok file →
      file.rename renamer = .ok (after, count) →
        ∃ sites, file.sites = .ok sites ∧ count = sites.countP (changedBetween file after) := by
  intro all
  have parsed : parse sampleBytes = .ok sample := by decide +kernel
  have renamed : sample.rename (Renamer.ofClass "A" "A") = .ok (sample, 1) := by decide +kernel
  obtain ⟨sites, -, counted⟩ := all _ _ _ _ _ parsed renamed
  -- no site of a class differs from itself
  have same : sites.countP (changedBetween sample sample) = 0 :=
    List.countP_eq_zero.mpr fun site _ => by simp [changedBetween]
  rw [same] at counted
  cases counted

end ClassFile

end JarRename
