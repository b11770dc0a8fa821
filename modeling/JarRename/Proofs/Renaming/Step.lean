import JarRename.Proofs.Renaming.Edit

/-!
**One site renamed.**

Renaming a site asks the pool for its replacement and points its location there. It changes the cells of the
location, adds at most three slots, and the location holds the replacement afterwards.

* `ClassFile.Replaced`: a class before and after a replacement;
* `ClassFile.replaced_of_replaceAt`: every replacement is made so;
* `ClassFile.renameSite_eq_ok`: a site is replaced or stays.
-/

namespace JarRename

/-- Whether a replacement is a text. -/
def Replacement.isText : Replacement → Bool
  | text _ => true
  | nameAndType _ _ => false

namespace ClassFile

/-- A class before and after a replacement is stored at a location. -/
structure Replaced (location : Location) (replacement : Replacement) (before after : ClassFile) : Prop where
  edited : Edited location.Covers before after
  size : after.pool.size ≤ before.pool.size + 3
  stores : ∀ old, before.Stores location old → old.isText = replacement.isText →
    after.Stores location replacement

variable {file after : ClassFile} {location : Location} {replacement : Replacement} {index : Index}

theorem editPool_eq_ok {α : Type} {edit : PoolEdit α} {value : α} :
    editPool edit file = .ok value after ↔
      ∃ pool, edit file.pool = .ok value pool ∧ after = { file with pool } := by
  unfold editPool
  dsimp only
  cases edit file.pool with
  | error cause pool =>
    constructor
    · intro done
      cases done
    · rintro ⟨other, same, -⟩
      cases same
  | ok found pool =>
    constructor
    · intro done
      cases done
      exact ⟨pool, rfl, rfl⟩
    · rintro ⟨other, same, rfl⟩
      cases same
      rfl

/-- What is found in a class leaves it as it is. -/
theorem inspect_eq_ok {α : Type} {look : ClassFile → Except Fault α} {value : α} :
    inspect look file = .ok value after ↔ look file = .ok value ∧ file = after := by
  unfold inspect
  cases look file <;> simp

/-! ### Constants -/

/-- A constant is pointed at a replacement. -/
theorem repointed {kinds : List Kind} (small : file.pool.size ≤ Pool.maxSlots)
    (done : repointAt kinds index replacement file = .ok () after) :
    ∃ target, after.pool.Names target replacement ∧ after.pool.size ≤ file.pool.size + 3 ∧
      (∀ constant, file.pool.slot? index = some constant → constant.kind ∈ kinds →
        after.pool.slot? index = some (constant.repoint target)) ∧
      ∀ touched : Cell → Prop, touched (.constant index) → Edited touched file after := by
  obtain ⟨target, middle, step, done⟩ := edit_bind_eq_ok.mp done
  obtain ⟨pool, interned, rfl⟩ := editPool_eq_ok.mp step
  obtain ⟨later, repointed, rfl⟩ := editPool_eq_ok.mp done
  obtain ⟨extended, names, size⟩ := Replacement.intern_eq_ok small interned
  refine ⟨target, (Pool.grown_repoint repointed).names names, ?_, fun constant found fitting => ?_,
    fun touched here => ?_⟩
  · rw [← Pool.size_repoint repointed] at size
    exact size
  · exact Pool.slot?_repoint repointed (extended.slot_same found) fitting
  · exact (edited_pool touched extended).trans (edited_repoint here repointed)

theorem replaced_classConstant {value : String} (small : file.pool.size ≤ Pool.maxSlots)
    (done : replaceAt (.classConstant index) (.text value) file = .ok () after) :
    Replaced (.classConstant index) (.text value) file after := by
  obtain ⟨target, names, size, slot, edited⟩ := repointed small done
  refine ⟨edited _ rfl, size, fun old stores sort => ?_⟩
  cases old with
  | nameAndType name descriptor => cases sort
  | text old =>
    obtain ⟨name, found, -⟩ := stores
    exact ⟨target, slot _ found List.mem_cons_self, names⟩

theorem replaced_methodTypeConstant {value : String} (small : file.pool.size ≤ Pool.maxSlots)
    (done : replaceAt (.methodTypeConstant index) (.text value) file = .ok () after) :
    Replaced (.methodTypeConstant index) (.text value) file after := by
  obtain ⟨target, names, size, slot, edited⟩ := repointed small done
  refine ⟨edited _ rfl, size, fun old stores sort => ?_⟩
  cases old with
  | nameAndType name descriptor => cases sort
  | text old =>
    obtain ⟨descriptor, found, -⟩ := stores
    exact ⟨target, slot _ found List.mem_cons_self, names⟩

theorem replaced_memberConstant {name descriptor : String} (small : file.pool.size ≤ Pool.maxSlots)
    (done : replaceAt (.memberConstant index) (.nameAndType name descriptor) file = .ok () after) :
    Replaced (.memberConstant index) (.nameAndType name descriptor) file after := by
  obtain ⟨target, names, size, slot, edited⟩ := repointed small done
  refine ⟨edited _ rfl, size, fun old stores sort => ?_⟩
  cases old with
  | text old => cases sort
  | nameAndType oldName oldDescriptor =>
    obtain ⟨kind, owner, pair, found, -⟩ := stores
    have held := slot _ found (by cases kind <;> simp [MemberKind.constant, Constant.kind])
    refine ⟨kind, owner, target, ?_, names⟩
    rw [held]
    cases kind <;> rfl

theorem replaced_dynamicConstant {name descriptor : String} (small : file.pool.size ≤ Pool.maxSlots)
    (done : replaceAt (.dynamicConstant index) (.nameAndType name descriptor) file = .ok () after) :
    Replaced (.dynamicConstant index) (.nameAndType name descriptor) file after := by
  obtain ⟨target, names, size, slot, edited⟩ := repointed small done
  refine ⟨edited _ rfl, size, fun old stores sort => ?_⟩
  cases old with
  | text old => cases sort
  | nameAndType oldName oldDescriptor =>
    obtain ⟨bootstrap, pair, found, -⟩ := stores
    refine ⟨bootstrap, target, found.imp (fun here => ?_) fun here => ?_, names⟩
    · exact slot _ here List.mem_cons_self
    · exact slot _ here (List.mem_cons_of_mem _ List.mem_cons_self)

/-! ### Declarations -/

/-- The two texts of a declaration are asked for one after the other, and then the declaration is looked up. -/
theorem interned_texts (small : file.pool.size ≤ Pool.maxSlots) {name descriptor : String}
    {look : ClassFile → Except Fault Unit} {change : Index → Index → ClassFile → ClassFile}
    (done : (do
      let name ← editPool (Pool.internText name)
      let descriptor ← editPool (Pool.internText descriptor)
      inspect look
      modify (change name descriptor) : ClassEdit Unit) file = .ok () after) :
    ∃ first second pool, Pool.Extended file.pool pool ∧ pool.size ≤ file.pool.size + 3 ∧
      pool.utf8 first = .ok name ∧ pool.utf8 second = .ok descriptor ∧
      after = change first second { file with pool } := by
  obtain ⟨first, _, step, done⟩ := edit_bind_eq_ok.mp done
  obtain ⟨withName, interned, rfl⟩ := editPool_eq_ok.mp step
  obtain ⟨second, _, step, done⟩ := edit_bind_eq_ok.mp done
  obtain ⟨withBoth, internedToo, rfl⟩ := editPool_eq_ok.mp step
  obtain ⟨⟨⟩, _, step, done⟩ := edit_bind_eq_ok.mp done
  obtain ⟨-, rfl⟩ := inspect_eq_ok.mp step
  obtain ⟨nameExtended, nameRead, nameSize⟩ := Pool.internText_eq_ok small interned
  obtain ⟨extended, descriptorRead, size⟩ := Pool.internText_eq_ok (nameExtended.small small) internedToo
  refine ⟨first, second, withBoth, nameExtended.trans extended, ?_, extended.utf8 nameRead, descriptorRead,
    (edit_modify_eq_ok.mp done).symm⟩
  have total : withBoth.size ≤ withName.size + 1 := size
  omega

theorem replaced_fieldDeclaration {position : Nat} {name descriptor : String}
    (small : file.pool.size ≤ Pool.maxSlots)
    (done : replaceAt (.fieldDeclaration position) (.nameAndType name descriptor) file = .ok () after) :
    Replaced (.fieldDeclaration position) (.nameAndType name descriptor) file after := by
  obtain ⟨first, second, pool, extended, size, nameRead, descriptorRead, rfl⟩ := interned_texts small done
  have here : (Location.fieldDeclaration position).Covers (.field position) := rfl
  refine ⟨(edited_pool _ extended).trans (edited_field here first second), size, fun old stores sort => ?_⟩
  cases old with
  | text old => cases sort
  | nameAndType oldName oldDescriptor =>
    obtain ⟨field, found, -⟩ := stores
    refine ⟨renameMember first second field, ?_, nameRead, descriptorRead⟩
    simp [found]

theorem replaced_methodDeclaration {position : Nat} {name descriptor : String}
    (small : file.pool.size ≤ Pool.maxSlots)
    (done : replaceAt (.methodDeclaration position) (.nameAndType name descriptor) file = .ok () after) :
    Replaced (.methodDeclaration position) (.nameAndType name descriptor) file after := by
  obtain ⟨first, second, pool, extended, size, nameRead, descriptorRead, rfl⟩ := interned_texts small done
  have here : (Location.methodDeclaration position).Covers (.method position) := rfl
  refine ⟨(edited_pool _ extended).trans (edited_method here first second), size, fun old stores sort => ?_⟩
  cases old with
  | text old => cases sort
  | nameAndType oldName oldDescriptor =>
    obtain ⟨method, found, -⟩ := stores
    refine ⟨renameMember first second method, ?_, nameRead, descriptorRead⟩
    simp [found]

/-! ### Attributes -/

/-- The attribute of an owner, which has one at the position. -/
theorem attributeAt_eq_ok {owner : Owner} {position : Nat} {item : Attribute} :
    file.attributeAt owner position = .ok item ↔
      file.checkOwner owner = .ok () ∧ (file.attributesOf owner)[position]? = some item := by
  rw [attributeAt, bind_eq_ok]
  constructor
  · rintro ⟨⟨⟩, owned, found⟩
    split at found
    next => cases found
    next other held =>
      cases found
      exact ⟨owned, held⟩
  · rintro ⟨owned, held⟩
    exact ⟨(), owned, by rw [held]⟩

theorem replaced_inAttribute {owner : Owner} {position offset : Nat} (small : file.pool.size ≤ Pool.maxSlots)
    (done : replaceAt (.inAttribute owner position offset) replacement file = .ok () after) :
    Replaced (.inAttribute owner position offset) replacement file after := by
  obtain ⟨index, middle, step, done⟩ := edit_bind_eq_ok.mp done
  obtain ⟨pool, interned, rfl⟩ := editPool_eq_ok.mp step
  obtain ⟨extended, names, size⟩ := Replacement.intern_eq_ok small interned
  have edited := edited_pool (Location.inAttribute owner position offset).Covers extended
  obtain ⟨item, _, step, done⟩ := edit_bind_eq_ok.mp done
  obtain ⟨held, rfl⟩ := inspect_eq_ok.mp step
  obtain ⟨data, _, step, done⟩ := edit_bind_eq_ok.mp done
  obtain ⟨patch, rfl⟩ := inspect_eq_ok.mp step
  obtain rfl := edit_modify_eq_ok.mp done
  obtain ⟨-, found⟩ := attributeAt_eq_ok.mp held
  have patched := Bytes.patched_of_patch patch
  have kept := mapAttributes_kept { file with pool } owner fun items => items.set position { item with data }
  refine ⟨edited.trans (edited_patch found patched), ?_, fun old _ _ => ?_⟩
  · rw [kept.2.1]
    exact size
  · refine ⟨{ item with data }, index, ?_, patched.stored, ?_⟩
    · rw [attributesOf_mapAttributes _ _ rfl, if_pos rfl]
      exact List.getElem?_set_self (List.getElem?_eq_some_iff.mp found).1
    · rw [kept.2.1]
      exact names

/-- **Every replacement** changes the cells of its location, which holds it afterwards. -/
theorem replaced_of_replaceAt (small : file.pool.size ≤ Pool.maxSlots)
    (done : replaceAt location replacement file = .ok () after) :
    Replaced location replacement file after := by
  cases location <;> cases replacement
  case classConstant.text => exact replaced_classConstant small done
  case methodTypeConstant.text => exact replaced_methodTypeConstant small done
  case memberConstant.nameAndType => exact replaced_memberConstant small done
  case dynamicConstant.nameAndType => exact replaced_dynamicConstant small done
  case fieldDeclaration.nameAndType => exact replaced_fieldDeclaration small done
  case methodDeclaration.nameAndType => exact replaced_methodDeclaration small done
  case inAttribute.text | inAttribute.nameAndType => exact replaced_inAttribute small done
  -- the other pairs do not fit
  all_goals cases done

end ClassFile

/-! ### Sites -/

/-- A symbol is replaced by what its site can hold. -/
theorem Renamer.isText_of_replacement? {renamer : Renamer} {symbol : Symbol} {replacement : Replacement}
    (done : renamer.replacement? symbol = .ok (some replacement)) :
    symbol.stored.isText = replacement.isText := by
  have member (name descriptor newDescriptor : String) (newName : Option String)
      (found : changedMember name descriptor newName newDescriptor = some replacement) :
      replacement.isText = false := by
    unfold changedMember at found
    dsimp only at found
    split at found
    · cases found
    · cases found
      rfl
  have text (old new : String) (found : changed old new = some replacement) : replacement.isText = true := by
    unfold changed at found
    split at found
    · cases found
    · cases found
      rfl
  cases symbol with
  | ofClass name =>
    obtain ⟨mapped, -, found⟩ := bind_eq_ok.mp done
    obtain ⟨new, -, rfl⟩ := Option.map_eq_some_iff.mp (pure_eq_ok.mp found)
    rfl
  | ofField | ofMethod | enclosingMethod | callSite =>
    obtain ⟨mapped, -, found⟩ := bind_eq_ok.mp done
    rw [member _ _ _ _ (pure_eq_ok.mp found)]
    rfl
  | ofDescriptor | ofSignature =>
    obtain ⟨mapped, -, found⟩ := bind_eq_ok.mp done
    rw [text _ _ (pure_eq_ok.mp found)]
    rfl
  | innerName inner name =>
    obtain ⟨new, -, rfl⟩ := Option.map_eq_some_iff.mp (pure_eq_ok.mp done)
    rfl
  | recordComponent owner name descriptor =>
    obtain ⟨new, -, found⟩ := Option.bind_eq_some_iff.mp (pure_eq_ok.mp done)
    rw [text _ _ found]
    rfl

namespace ClassFile

/-- **One site renamed.** It changes the cells of the site and adds at most three slots if it changes at all.
A site that held its symbol holds the replacement of its symbol, or its symbol if that has none. -/
theorem renameSite_eq_ok {renamer : Renamer} {site : Site} {file after : ClassFile} {count : Nat}
    (small : file.pool.size ≤ Pool.maxSlots) (done : renameSite renamer site file = .ok count after) :
    Edited site.location.Covers file after ∧ after.pool.size ≤ file.pool.size + 3 * count ∧
      (site.location.isInstruction = false → ∃ replacement?,
        renamer.replacement? site.symbol = .ok replacement? ∧
        (file.Stores site.location site.symbol.stored →
          after.Stores site.location (replacement?.getD site.symbol.stored))) := by
  unfold renameSite at done
  by_cases operand : site.location.isInstruction = true
  · rw [if_pos operand] at done
    cases done
    exact ⟨.refl _ _, Nat.le_add_right _ _, fun other => nomatch operand.symm.trans other⟩
  · rw [if_neg operand] at done
    cases found : renamer.replacement? site.symbol with
    | error cause =>
      rw [found] at done
      cases done
    | ok replacement? =>
      rw [found] at done
      cases replacement? with
      | none =>
        cases done
        exact ⟨.refl _ _, Nat.le_add_right _ _, fun _ => ⟨none, rfl, id⟩⟩
      | some replacement =>
        obtain ⟨⟨⟩, middle, step, done⟩ := edit_bind_eq_ok.mp done
        obtain ⟨rfl, rfl⟩ := edit_pure_eq_ok.mp done
        have replaced := replaced_of_replaceAt small step
        refine ⟨replaced.edited, replaced.size, fun _ => ⟨some replacement, rfl, fun stores => ?_⟩⟩
        exact replaced.stores _ stores (Renamer.isText_of_replacement? found)

end ClassFile

end JarRename
