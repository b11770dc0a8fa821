import JarRename.Proofs.Renaming.Reached

/-!
**Why the renaming of a class fails.**

A replacement is refused if the location takes another sort of value, if its constant, its declaration or its attribute
is not there, or if it lies outside of its attribute. None of this happens to the sites of a class: their locations hold
what their symbols say, and go on holding it while other sites are renamed. So a class cannot be renamed only because
its sites cannot be told, because the renamer has no answer, or because the pool is full.

* `ClassFile.checkOwner_of_attribute`, `Bytes.exists_patch`: what is there is found;
* `ClassFile.full_of_replaceAt`: a location that holds a value of the sort takes a replacement;
* `ClassFile.cause_of_run`, `ClassFile.cause_of_rename`: a run over sites, by induction, and a class.
-/

namespace JarRename

/-- An index that can be read can be overwritten. -/
theorem Bytes.exists_patch {bytes : Bytes} {offset : Nat} {old : UInt16} (peeked : peek bytes offset = .ok old)
    (index : UInt16) : ∃ result, patch bytes offset index = .ok result := by
  unfold peek at peeked
  unfold patch
  split at peeked
  next => exact ⟨_, rfl⟩
  next => cases peeked

namespace ClassFile

variable {renamer : Renamer} {file after : ClassFile} {location : Location} {replacement old : Replacement}
variable {site : Site} {sites : List Site} {start : Nat} {cause : Fault} {position : Nat}

/-! ### What is there is found -/

theorem checkOwner_of_field {field : Member} (found : file.fields[position]? = some field) :
    file.checkOwner (.ofField position) = .ok () :=
  if_pos (List.getElem?_eq_some_iff.mp found).1

theorem checkOwner_of_method {method : Member} (found : file.methods[position]? = some method) :
    file.checkOwner (.ofMethod position) = .ok () :=
  if_pos (List.getElem?_eq_some_iff.mp found).1

/-- What has attributes is there. -/
theorem checkOwner_of_attribute {owner : Owner} {item : Attribute}
    (found : (file.attributesOf owner)[position]? = some item) : file.checkOwner owner = .ok () := by
  cases owner with
  | ofClass => rfl
  | ofField place =>
    cases member : file.fields[place]? with
    | none => simp [attributesOf, member] at found
    | some field => exact checkOwner_of_field member
  | ofMethod place =>
    cases member : file.methods[place]? with
    | none => simp [attributesOf, member] at found
    | some method => exact checkOwner_of_method member

/-! ### Replacements that are refused -/

/-- **A location that holds a value** takes any replacement of the same sort, unless the pool is full. -/
theorem full_of_replaceAt (small : file.pool.size ≤ Pool.maxSlots) (stores : file.Stores location old)
    (sort : old.isText = replacement.isText) (failed : replaceAt location replacement file = .error cause after) :
    cause = .poolOverflow Pool.maxSlots := by
  cases location <;> cases old <;> cases replacement <;> cases sort
  case classConstant.text.text.refl =>
    obtain ⟨name, found, -⟩ := stores
    refine (stopped_of_repointAt small failed).2.resolve_right fun missing => ?_
    cases missing.symm.trans found
  case methodTypeConstant.text.text.refl =>
    obtain ⟨descriptor, found, -⟩ := stores
    refine (stopped_of_repointAt small failed).2.resolve_right fun missing => ?_
    cases missing.symm.trans found
  case memberConstant.nameAndType.nameAndType.refl =>
    obtain ⟨kind, owner, pair, found, -⟩ := stores
    refine (stopped_of_repointAt small failed).2.resolve_right fun missing => ?_
    cases missing.symm.trans found
  case dynamicConstant.nameAndType.nameAndType.refl =>
    obtain ⟨bootstrap, pair, found | found, -⟩ := stores
    all_goals
      refine (stopped_of_repointAt small failed).2.resolve_right fun missing => ?_
      cases missing.symm.trans found
  case fieldDeclaration.nameAndType.nameAndType.refl =>
    obtain ⟨field, found, -⟩ := stores
    refine (stopped_of_texts small failed).2.resolve_right ?_
    rintro ⟨pool, missed⟩
    have owned : ({ file with pool } : ClassFile).checkOwner (.ofField _) = .ok () := checkOwner_of_field found
    cases missed.symm.trans owned
  case methodDeclaration.nameAndType.nameAndType.refl =>
    obtain ⟨method, found, -⟩ := stores
    refine (stopped_of_texts small failed).2.resolve_right ?_
    rintro ⟨pool, missed⟩
    have owned : ({ file with pool } : ClassFile).checkOwner (.ofMethod _) = .ok () := checkOwner_of_method found
    cases missed.symm.trans owned
  case inAttribute.text.text.refl | inAttribute.nameAndType.nameAndType.refl =>
    obtain ⟨item, index, found, peeked, -⟩ := stores
    rcases edit_bind_eq_error.mp failed with first | ⟨target, middle, step, failed⟩
    · exact (stopped_of_intern small first).2
    · obtain ⟨pool, interned, rfl⟩ := editPool_eq_ok.mp step
      have edited := edited_pool (fun _ => False) (Replacement.intern_eq_ok small interned).1
      obtain ⟨later, kept, -, same⟩ := edited.item found
      have held := attributeAt_eq_ok.mpr ⟨checkOwner_of_attribute kept, kept⟩
      obtain ⟨-, missed | ⟨other, again, outside⟩⟩ := patchAttribute_eq_error failed
      · cases missed.symm.trans held
      · cases again.symm.trans held
        have data : later.data = item.data := List.ext_getElem? fun place => same place id
        obtain ⟨result, patched⟩ := Bytes.exists_patch (data ▸ peeked) target
        cases outside.symm.trans patched
  -- nothing of another sort is stored there
  all_goals cases stores

/-! ### Runs that stop -/

/-- **A run over sites that lie apart** and hold their symbols stops only at a symbol that the renamer has no answer
for, or at a full pool. -/
theorem cause_of_run (small : file.pool.size ≤ Pool.maxSlots)
    (apart : sites.Pairwise fun first second => first.location.Apart second.location)
    (stores : ∀ site ∈ sites, site.location.isInstruction = false →
      file.Stores site.location site.symbol.stored)
    (failed : renameFrom renamer sites start file = .error cause after) :
    (∃ site ∈ sites, renamer.replacement? site.symbol = .error cause) ∨ cause = .poolOverflow Pool.maxSlots := by
  induction apart generalizing file start with
  | nil => cases failed
  | @cons site sites others _ ih =>
    obtain ⟨here, behind⟩ := List.forall_mem_cons.mp stores
    rw [renameFrom, List.foldlM_cons] at failed
    rcases edit_bind_eq_error.mp failed with first | ⟨total, middle, step, rest⟩
    · rcases edit_bind_eq_error.mp first with stopped | ⟨changes, between, -, counted⟩
      · rcases renameSite_eq_error stopped with ⟨unanswered, -⟩ | ⟨replacement, asked, refused⟩
        · exact .inl ⟨site, List.mem_cons_self, unanswered⟩
        · have stays : site.location.isInstruction = false := by
            by_contra operand
            rw [renameSite, if_pos (by simpa using operand)] at stopped
            cases stopped
          exact .inr (full_of_replaceAt small (here stays) (Renamer.isText_of_replacement? asked) refused)
      · cases counted
    · obtain ⟨changes, between, renamed, same⟩ := edit_bind_eq_ok.mp step
      obtain ⟨rfl, rfl⟩ := edit_pure_eq_ok.mp same
      have edited := (renameSite_eq_ok small renamed).1
      have held (other : Site) (member : other ∈ sites) (stays : other.location.isInstruction = false) :
          between.Stores other.location other.symbol.stored :=
        edited.stores (fun cell covers touched => others other member cell touched covers) (behind other member stays)
      rcases ih (edited.pool.small small) held rest with ⟨other, member, unanswered⟩ | full
      · exact .inl ⟨other, List.mem_cons_of_mem _ member, unanswered⟩
      · exact .inr full

/-- **Why the renaming of an accepted class fails**: its sites cannot be told, the renamer has no answer for the symbol
of one of them, or the pool is full. -/
theorem cause_of_rename {bytes : Bytes} (parsed : parse bytes = .ok file)
    (failed : file.rename renamer = .error cause) :
    file.sites = .error cause ∨
      (∃ sites, file.sites = .ok sites ∧ ∃ site ∈ sites, renamer.replacement? site.symbol = .error cause) ∨
      cause = .poolOverflow Pool.maxSlots := by
  have small := small_of_parse parsed
  cases told : file.sites with
  | error other =>
    rw [rename, told] at failed
    cases failed
    exact .inl rfl
  | ok sites =>
    rw [rename, told, ok_bind] at failed
    cases ran : renameSites renamer sites file with
    | ok count after =>
      rw [ran] at failed
      cases failed
    | error other after =>
      rw [ran] at failed
      cases failed
      obtain ⟨context, parts, collected, rfl⟩ := sites_eq_ok.mp told
      have run : renameFrom renamer parts.all 0 file = .error cause after := ran
      have stopped := cause_of_run small (collected.pairwise_apart small)
        (fun site member stays => collected.stores small member stays) run
      exact .inr (stopped.imp (fun unanswered => ⟨_, rfl, unanswered⟩) id)

end ClassFile

end JarRename
