import JarRename.Proofs.Site.Code
import JarRename.Proofs.Site.Location

/-!
**What a change of a class leaves as it is.**

A replacement is stored at a location by a change of its cells. Everything else stays: the outline of the class,
the shapes of its attributes, the constants, declarations and bytes of other cells.

* `ClassFile.outline`: what no renaming changes;
* `ClassFile.Edited`: a class before and after a change of some cells;
* `ClassFile.Edited.stores`: a location apart from the change holds what it held;
* `ClassFile.edited_pool`, `ClassFile.edited_repoint`, `ClassFile.edited_field`, `ClassFile.edited_method`,
  `ClassFile.edited_patch`: the changes that a replacement is made of.
-/

namespace JarRename

/-- What no renaming changes in a class beside its pool and its attributes. -/
structure Outline where
  minor : UInt16
  major : UInt16
  flags : Flags
  thisClass : Index
  superClass : Option Index
  interfaces : List Index
  fieldFlags : List Flags
  methodFlags : List Flags

/-- The indices of the name and the descriptor of a member. -/
def Member.names (member : Member) : Index × Index :=
  (member.name, member.descriptor)

/-- Lists of members with the same flags have members at the same positions. -/
theorem Member.exists_of_flags {members others : List Member}
    (same : others.map Member.flags = members.map Member.flags) {position : Nat} {member : Member}
    (found : members[position]? = some member) :
    ∃ other, others[position]? = some other ∧ other.flags = member.flags := by
  refine Option.map_eq_some_iff.mp ?_
  rw [← List.getElem?_map, same, List.getElem?_map, found]
  rfl

namespace ClassFile

theorem attributesOf_field {file : ClassFile} {position : Nat} {field : Member}
    (found : file.fields[position]? = some field) : file.attributesOf (.ofField position) = field.attributes := by
  simp only [attributesOf, found, Option.map_some, Option.getD_some]

theorem attributesOf_method {file : ClassFile} {position : Nat} {method : Member}
    (found : file.methods[position]? = some method) :
    file.attributesOf (.ofMethod position) = method.attributes := by
  simp only [attributesOf, found, Option.map_some, Option.getD_some]

/-- The outline of a class. -/
def outline (file : ClassFile) : Outline where
  minor := file.minor
  major := file.major
  flags := file.flags
  thisClass := file.thisClass
  superClass := file.superClass
  interfaces := file.interfaces
  fieldFlags := file.fields.map Member.flags
  methodFlags := file.methods.map Member.flags

/-- A byte of an attribute, given by its owner and position. -/
def attributeByte? (file : ClassFile) (owner : Owner) (position offset : Nat) : Option UInt8 :=
  (file.attributesOf owner)[position]?.bind fun item => item.data[offset]?

/-- A class before and after a change of the cells that are touched. -/
structure Edited (touched : Cell → Prop) (before after : ClassFile) : Prop where
  outline : after.outline = before.outline
  pool : Pool.Grown before.pool after.pool
  constants : ∀ index constant, ¬touched (.constant index) → before.pool.slot? index = some constant →
    after.pool.slot? index = some constant
  fields : ∀ position, ¬touched (.field position) →
    after.fields[position]?.map Member.names = before.fields[position]?.map Member.names
  methods : ∀ position, ¬touched (.method position) →
    after.methods[position]?.map Member.names = before.methods[position]?.map Member.names
  shapes : ∀ owner,
    (after.attributesOf owner).map Attribute.shape = (before.attributesOf owner).map Attribute.shape
  bytes : ∀ owner position offset, ¬touched (.byte owner position offset) →
    after.attributeByte? owner position offset = before.attributeByte? owner position offset

namespace Edited

variable {touched : Cell → Prop} {before middle after : ClassFile}

theorem refl (touched : Cell → Prop) (file : ClassFile) : Edited touched file file where
  outline := rfl
  pool := .refl _
  constants := fun _ _ _ found => found
  fields := fun _ _ => rfl
  methods := fun _ _ => rfl
  shapes := fun _ => rfl
  bytes := fun _ _ _ _ => rfl

theorem trans (first : Edited touched before middle) (second : Edited touched middle after) :
    Edited touched before after where
  outline := second.outline.trans first.outline
  pool := first.pool.trans second.pool
  constants := fun index constant free found =>
    second.constants index constant free (first.constants index constant free found)
  fields := fun position free => (second.fields position free).trans (first.fields position free)
  methods := fun position free => (second.methods position free).trans (first.methods position free)
  shapes := fun owner => (second.shapes owner).trans (first.shapes owner)
  bytes := fun owner position offset free =>
    (second.bytes owner position offset free).trans (first.bytes owner position offset free)

theorem mono {more : Cell → Prop} (edited : Edited touched before after)
    (inside : ∀ cell, touched cell → more cell) : Edited more before after :=
  { edited with
    constants := fun index constant free => edited.constants index constant fun here => free (inside _ here)
    fields := fun position free => edited.fields position fun here => free (inside _ here)
    methods := fun position free => edited.methods position fun here => free (inside _ here)
    bytes := fun owner position offset free =>
      edited.bytes owner position offset fun here => free (inside _ here) }

theorem fieldFlags (edited : Edited touched before after) :
    after.fields.map Member.flags = before.fields.map Member.flags :=
  congrArg Outline.fieldFlags edited.outline

theorem methodFlags (edited : Edited touched before after) :
    after.methods.map Member.flags = before.methods.map Member.flags :=
  congrArg Outline.methodFlags edited.outline

theorem length_attributesOf (edited : Edited touched before after) (owner : Owner) :
    (after.attributesOf owner).length = (before.attributesOf owner).length := by
  rw [← List.length_map, edited.shapes owner, List.length_map]

/-- An attribute stays where it is, with its name, its length and its untouched bytes. -/
theorem item (edited : Edited touched before after) {owner : Owner} {position : Nat} {item : Attribute}
    (found : (before.attributesOf owner)[position]? = some item) :
    ∃ later, (after.attributesOf owner)[position]? = some later ∧ later.shape = item.shape ∧
      ∀ offset, ¬touched (.byte owner position offset) → later.data[offset]? = item.data[offset]? := by
  have shapes : (after.attributesOf owner)[position]?.map Attribute.shape = some item.shape := by
    rw [← List.getElem?_map, edited.shapes owner, List.getElem?_map, found]
    rfl
  obtain ⟨later, kept, shape⟩ := Option.map_eq_some_iff.mp shapes
  refine ⟨later, kept, shape, fun offset free => ?_⟩
  have same := edited.bytes owner position offset free
  rw [attributeByte?, attributeByte?, kept, found] at same
  exact same

theorem name_eq (edited : Edited touched before after) {owner : Owner} {position : Nat} {item later : Attribute}
    (found : (before.attributesOf owner)[position]? = some item)
    (kept : (after.attributesOf owner)[position]? = some later) : later.name = item.name := by
  obtain ⟨other, otherKept, shape, -⟩ := edited.item found
  cases kept.symm.trans otherKept
  exact congrArg Prod.fst shape

/-- The attributes of an owner before and after stand at the same positions. -/
theorem items (edited : Edited touched before after) (owner : Owner) :
    List.Forall₂ (fun item later => ∃ position : Nat, (before.attributesOf owner)[position]? = some item ∧
      (after.attributesOf owner)[position]? = some later)
      (before.attributesOf owner) (after.attributesOf owner) := by
  refine forall₂_of_positions (edited.length_attributesOf owner) fun position item later here there => ?_
  exact ⟨position, here, there⟩

/-- A member whose indices stay has the texts it had. -/
theorem member_texts {pool later : Pool} (grown : Pool.Grown pool later) {old new : Option Member}
    (same : new.map Member.names = old.map Member.names) {member : Member} {name descriptor : String}
    (found : old = some member) (nameRead : pool.utf8 member.name = .ok name)
    (descriptorRead : pool.utf8 member.descriptor = .ok descriptor) :
    ∃ other, new = some other ∧ later.utf8 other.name = .ok name ∧
      later.utf8 other.descriptor = .ok descriptor := by
  subst found
  obtain ⟨other, rfl, names⟩ := Option.map_eq_some_iff.mp same
  injection names with sameName sameDescriptor
  refine ⟨other, rfl, ?_, ?_⟩
  · rw [sameName]
    exact grown.utf8 nameRead
  · rw [sameDescriptor]
    exact grown.utf8 descriptorRead

/-- **A location apart from the change holds what it held.** -/
theorem stores (edited : Edited touched before after) {location : Location} {replacement : Replacement}
    (apart : ∀ cell, location.Covers cell → ¬touched cell) (stores : before.Stores location replacement) :
    after.Stores location replacement := by
  cases location <;> cases replacement
  case classConstant.text index value =>
    obtain ⟨name, found, read⟩ := stores
    exact ⟨name, edited.constants _ _ (apart (.constant index) rfl) found, edited.pool.utf8 read⟩
  case methodTypeConstant.text index value =>
    obtain ⟨descriptor, found, read⟩ := stores
    exact ⟨descriptor, edited.constants _ _ (apart (.constant index) rfl) found, edited.pool.utf8 read⟩
  case memberConstant.nameAndType index name descriptor =>
    obtain ⟨kind, owner, pair, found, read⟩ := stores
    exact ⟨kind, owner, pair, edited.constants _ _ (apart (.constant index) rfl) found,
      edited.pool.nameAndType read⟩
  case dynamicConstant.nameAndType index name descriptor =>
    obtain ⟨bootstrap, pair, found, read⟩ := stores
    exact ⟨bootstrap, pair, found.imp (edited.constants _ _ (apart (.constant index) rfl))
      (edited.constants _ _ (apart (.constant index) rfl)), edited.pool.nameAndType read⟩
  case fieldDeclaration.nameAndType position name descriptor =>
    obtain ⟨field, found, nameRead, descriptorRead⟩ := stores
    exact member_texts edited.pool (edited.fields position (apart (.field position) rfl)) found nameRead
      descriptorRead
  case methodDeclaration.nameAndType position name descriptor =>
    obtain ⟨method, found, nameRead, descriptorRead⟩ := stores
    exact member_texts edited.pool (edited.methods position (apart (.method position) rfl)) found nameRead
      descriptorRead
  case inAttribute.text owner position offset _ | inAttribute.nameAndType owner position offset _ _ =>
    obtain ⟨item, index, found, peeked, names⟩ := stores
    obtain ⟨later, kept, -, same⟩ := edited.item found
    obtain ⟨a, b, first, second, word⟩ := Bytes.peek_eq_ok.mp peeked
    refine ⟨later, index, kept, Bytes.peek_eq_ok.mpr ⟨a, b, ?_, ?_, word⟩, edited.pool.names names⟩
    · rw [same offset (apart _ ⟨rfl, rfl, by omega, by omega⟩), first]
    · rw [same (offset + 1) (apart _ ⟨rfl, rfl, by omega, by omega⟩), second]
  all_goals cases stores

end Edited

/-! ### Elementary changes -/

section Changes

variable {file : ClassFile}

/-- A view of the items of a list that a change of one item keeps. -/
theorem getElem?_modify_view {α β : Type} {change : α → α} {view : α → β}
    (same : ∀ item, view (change item) = view item) (items : List α) (position other : Nat) :
    (items.modify position change)[other]?.map view = items[other]?.map view := by
  rw [List.getElem?_modify]
  cases items[other]? with
  | none => rfl
  | some item =>
    by_cases here : position = other
    · simp [here, same]
    · simp [here]

theorem map_modify_view {α β : Type} {change : α → α} {view : α → β}
    (same : ∀ item, view (change item) = view item) (items : List α) (position : Nat) :
    (items.modify position change).map view = items.map view := by
  refine List.ext_getElem? fun other => ?_
  rw [List.getElem?_map, List.getElem?_map, getElem?_modify_view same]

theorem getElem?_modify_other {α : Type} {change : α → α} (items : List α) {position other : Nat}
    (differ : position ≠ other) : (items.modify position change)[other]? = items[other]? := by
  rw [List.getElem?_modify]
  simp [differ]

theorem edited_pool (touched : Cell → Prop) {pool : Pool} (extended : Pool.Extended file.pool pool) :
    Edited touched file { file with pool } where
  outline := rfl
  pool := extended.toGrown
  constants := fun _ _ _ found => extended.slot_same found
  fields := fun _ _ => rfl
  methods := fun _ _ => rfl
  shapes := fun owner => by cases owner <;> rfl
  bytes := fun owner _ _ _ => by cases owner <;> rfl

theorem edited_repoint {touched : Cell → Prop} {kinds : List Kind} {index target : Index} {pool : Pool}
    (here : touched (.constant index)) (done : Pool.repoint kinds index target file.pool = .ok () pool) :
    Edited touched file { file with pool } where
  outline := rfl
  pool := Pool.grown_repoint done
  constants := by
    intro other constant free found
    have differ : other ≠ index := by
      rintro rfl
      exact free here
    rw [← found]
    exact Pool.slot?_repoint_of_ne done differ
  fields := fun _ _ => rfl
  methods := fun _ _ => rfl
  shapes := fun owner => by cases owner <;> rfl
  bytes := fun owner _ _ _ => by cases owner <;> rfl

/-- A change that keeps the outline, the pool and the attributes, and touches declarations only. -/
theorem edited_declarations {touched : Cell → Prop} {after : ClassFile} (outline : after.outline = file.outline)
    (pool : after.pool = file.pool) (attributes : ∀ owner, after.attributesOf owner = file.attributesOf owner)
    (fields : ∀ position, ¬touched (.field position) → after.fields[position]? = file.fields[position]?)
    (methods : ∀ position, ¬touched (.method position) → after.methods[position]? = file.methods[position]?) :
    Edited touched file after where
  outline := outline
  pool := pool ▸ .refl _
  constants := fun _ _ _ found => pool ▸ found
  fields := fun position free => by rw [fields position free]
  methods := fun position free => by rw [methods position free]
  shapes := fun owner => by rw [attributes]
  bytes := fun owner _ _ _ => by rw [attributeByte?, attributeByte?, attributes]

theorem edited_field {touched : Cell → Prop} {position : Nat} (here : touched (.field position))
    (name descriptor : Index) :
    Edited touched file
      { file with fields := file.fields.modify position (renameMember name descriptor) } := by
  refine edited_declarations ?_ rfl (fun owner => ?_) (fun other free => ?_) fun _ _ => rfl
  · simp only [outline, map_modify_view (fun _ => rfl : ∀ member : Member,
      (renameMember name descriptor member).flags = member.flags)]
  · cases owner with
    | ofField other =>
      simp only [attributesOf, getElem?_modify_view (fun _ => rfl : ∀ member : Member,
        (renameMember name descriptor member).attributes = member.attributes)]
    | ofClass => rfl
    | ofMethod other => rfl
  · refine getElem?_modify_other file.fields ?_
    rintro rfl
    exact free here

theorem edited_method {touched : Cell → Prop} {position : Nat} (here : touched (.method position))
    (name descriptor : Index) :
    Edited touched file
      { file with methods := file.methods.modify position (renameMember name descriptor) } := by
  refine edited_declarations ?_ rfl (fun owner => ?_) (fun _ _ => rfl) fun other free => ?_
  · simp only [outline, map_modify_view (fun _ => rfl : ∀ member : Member,
      (renameMember name descriptor member).flags = member.flags)]
  · cases owner with
    | ofMethod other =>
      simp only [attributesOf, getElem?_modify_view (fun _ => rfl : ∀ member : Member,
        (renameMember name descriptor member).attributes = member.attributes)]
    | ofClass => rfl
    | ofField other => rfl
  · refine getElem?_modify_other file.methods ?_
    rintro rfl
    exact free here

/-- The attributes of an owner after those of an owner changed. -/
theorem attributesOf_mapAttributes (file : ClassFile) (change : List Attribute → List Attribute)
    (nil : change [] = []) (owner other : Owner) :
    (file.mapAttributes owner change).attributesOf other =
      if other = owner then change (file.attributesOf owner) else file.attributesOf other := by
  -- the attributes of the members of a list, where the member at a position is changed
  have modified (members : List Member) (position place : Nat) :
      ((members.modify position fun member => { member with attributes := change member.attributes })[place]?.map
        Member.attributes).getD [] =
      if place = position then change ((members[position]?.map Member.attributes).getD [])
      else (members[place]?.map Member.attributes).getD [] := by
    by_cases same : place = position
    · subst same
      rw [if_pos rfl, List.getElem?_modify]
      cases members[place]? with
      | none => exact nil.symm
      | some member => simp
    · rw [if_neg same, getElem?_modify_other members (Ne.symm same)]
  cases owner <;> cases other <;> simp [mapAttributes, attributesOf, modified]

/-- What stands beside the attributes stays when attributes change. -/
theorem mapAttributes_kept (file : ClassFile) (owner : Owner) (change : List Attribute → List Attribute) :
    (file.mapAttributes owner change).outline = file.outline ∧
      (file.mapAttributes owner change).pool = file.pool ∧
      (file.mapAttributes owner change).fields.map Member.names = file.fields.map Member.names ∧
      (file.mapAttributes owner change).methods.map Member.names = file.methods.map Member.names := by
  have flags := map_modify_view (fun _ => rfl : ∀ member : Member,
    ({ member with attributes := change member.attributes } : Member).flags = member.flags)
  have names := map_modify_view (fun _ => rfl : ∀ member : Member,
    ({ member with attributes := change member.attributes } : Member).names = member.names)
  cases owner <;> simp [mapAttributes, outline, flags, names]

/-- An attribute with an index patched. -/
theorem edited_patch {owner : Owner} {position offset : Nat} {index : Index} {item : Attribute} {data : Bytes}
    (found : (file.attributesOf owner)[position]? = some item)
    (patched : Bytes.Patched item.data data offset index) :
    Edited (Location.inAttribute owner position offset).Covers file
      (file.mapAttributes owner fun items => items.set position { item with data }) := by
  obtain ⟨outline, pool, fields, methods⟩ :=
    mapAttributes_kept file owner fun items => items.set position { item with data }
  have attributes := attributesOf_mapAttributes file (fun items => items.set position { item with data }) rfl
    owner
  have inside := (List.getElem?_eq_some_iff.mp found).1
  constructor
  case outline => exact outline
  case pool =>
    rw [pool]
    exact .refl _
  case constants =>
    rw [pool]
    exact fun _ _ _ found => found
  case fields =>
    intro place _
    rw [← List.getElem?_map, fields, List.getElem?_map]
  case methods =>
    intro place _
    rw [← List.getElem?_map, methods, List.getElem?_map]
  case shapes =>
    intro other
    rw [attributes]
    split
    next same =>
      have shape : Attribute.shape { item with data } = item.shape := by
        rw [Attribute.shape, Attribute.shape, patched.length]
      subst same
      refine List.ext_getElem? fun place => ?_
      rw [List.map_set, shape]
      by_cases here : position = place
      · subst here
        rw [List.getElem?_set_self (by rwa [List.length_map]), List.getElem?_map, found]
        rfl
      · rw [List.getElem?_set_ne here]
    next => rfl
  case bytes =>
    intro other place byte free
    rw [attributeByte?, attributeByte?, attributes]
    split
    next same =>
      subst same
      by_cases here : position = place
      · subst here
        rw [List.getElem?_set_self inside, found]
        refine patched.outside byte ?_
        refine Decidable.byContradiction fun covered => free ⟨rfl, rfl, ?_⟩
        omega
      · rw [List.getElem?_set_ne here]
    next => rfl

end Changes

end ClassFile

end JarRename
