import JarRename.Proofs.Pool.Sound
import JarRename.Proofs.Renaming.Validity

/-!
**The states of a class while it is renamed.**

The sites of a class are renamed one by one, and each asks the pool for up to three constants before anything points
at them. A request that does not fit stops the run where it is. In all these states the pool is sound: new constants
are names made of texts of the pool, and a constant that is repointed is pointed at a name of the kind it needs.

* `Replacement.intern_eq_error`, `ClassFile.stopped_of_renameSite`: what a site that fails leaves behind;
* `ClassFile.sound_of_renameSite`, `ClassFile.sound_of_run`: one site, and a run that ends or stops;
* `ClassFile.Reached`, `ClassFile.sound_of_reached`: the states, and what holds in each of them.
-/

namespace JarRename

/-- The state that an edit leaves behind, whether it succeeds or fails. -/
def finalState {ε σ α : Type} : EStateM.Result ε σ α → σ
  | .ok _ state | .error _ state => state

/-! ### Requests that fail -/

namespace Pool

variable {pool result : Pool} {cause : Fault}

theorem internText_eq_error {text : String} (failed : internText text pool = .error cause result) :
    cause = .poolOverflow maxSlots ∧ result = pool :=
  intern_eq_error failed

/-- A name and type that does not fit may leave its texts behind. -/
theorem internNameAndType_eq_error (small : pool.size ≤ maxSlots) {name descriptor : String}
    (failed : internNameAndType name descriptor pool = .error cause result) :
    cause = .poolOverflow maxSlots ∧ Extended pool result := by
  rcases edit_bind_eq_error.mp failed with first | ⟨nameIndex, withName, named, failed⟩
  · obtain ⟨rfl, rfl⟩ := internText_eq_error first
    exact ⟨rfl, .refl _⟩
  · have nameExtended := (internText_eq_ok small named).1
    rcases edit_bind_eq_error.mp failed with second | ⟨descriptorIndex, withBoth, described, failed⟩
    · obtain ⟨rfl, rfl⟩ := internText_eq_error second
      exact ⟨rfl, nameExtended⟩
    · have bothExtended := (internText_eq_ok (nameExtended.small small) described).1
      obtain ⟨rfl, rfl⟩ := intern_eq_error failed
      exact ⟨rfl, nameExtended.trans bothExtended⟩

end Pool

/-- **A replacement that does not fit** leaves new names behind the pool and nothing else. -/
theorem Replacement.intern_eq_error {pool result : Pool} {replacement : Replacement} {cause : Fault}
    (small : pool.size ≤ Pool.maxSlots) (failed : replacement.intern pool = .error cause result) :
    cause = .poolOverflow Pool.maxSlots ∧ Pool.Extended pool result := by
  cases replacement with
  | text value =>
    obtain ⟨rfl, rfl⟩ := Pool.internText_eq_error failed
    exact ⟨rfl, .refl _⟩
  | nameAndType name descriptor => exact Pool.internNameAndType_eq_error small failed

namespace ClassFile

variable {renamer : Renamer} {file after : ClassFile} {location : Location} {replacement : Replacement}
variable {site : Site} {sites : List Site} {start count : Nat} {cause : Fault}

theorem editPool_eq_error {α : Type} {edit : PoolEdit α} :
    editPool edit file = .error cause after ↔
      ∃ pool, edit file.pool = .error cause pool ∧ after = { file with pool } := by
  unfold editPool
  dsimp only
  cases edit file.pool with
  | ok value pool => simp
  | error other pool => simp [eq_comm]

/-- What is not found in a class leaves it as it is. -/
theorem inspect_eq_error {α : Type} {look : ClassFile → Except Fault α} :
    inspect look file = .error cause after ↔ look file = .error cause ∧ file = after := by
  unfold inspect
  cases look file <;> simp

/-- A change that stops after new names were put behind the pool. -/
def Stopped (file after : ClassFile) : Prop :=
  ∃ pool, Pool.Extended file.pool pool ∧ after = { file with pool }

theorem stopped_of_intern (small : file.pool.size ≤ Pool.maxSlots)
    (failed : editPool replacement.intern file = .error cause after) :
    Stopped file after ∧ cause = .poolOverflow Pool.maxSlots := by
  obtain ⟨pool, stopped, same⟩ := editPool_eq_error.mp failed
  obtain ⟨full, extended⟩ := Replacement.intern_eq_error small stopped
  exact ⟨⟨pool, extended, same⟩, full⟩

/-- A constant is not pointed at a replacement that does not fit, or because there is no slot with its index. -/
theorem stopped_of_repointAt {kinds : List Kind} {index : Index} (small : file.pool.size ≤ Pool.maxSlots)
    (failed : repointAt kinds index replacement file = .error cause after) :
    Stopped file after ∧ (cause = .poolOverflow Pool.maxSlots ∨ file.pool.slot? index = none) := by
  rcases edit_bind_eq_error.mp failed with first | ⟨target, middle, step, failed⟩
  · obtain ⟨stopped, full⟩ := stopped_of_intern small first
    exact ⟨stopped, .inl full⟩
  · obtain ⟨pool, interned, rfl⟩ := editPool_eq_ok.mp step
    obtain ⟨left, missed, rfl⟩ := editPool_eq_error.mp failed
    obtain ⟨missing, -, rfl⟩ := Pool.repoint_eq_error.mp missed
    have extended := (Replacement.intern_eq_ok small interned).1
    refine ⟨⟨pool, extended, rfl⟩, .inr ?_⟩
    cases found : file.pool.slot? index with
    | none => rfl
    | some constant => cases missing.symm.trans (extended.slot_same found)

/-- The two texts of a declaration are asked for one after the other, and then the declaration is looked up. -/
theorem stopped_of_texts (small : file.pool.size ≤ Pool.maxSlots) {name descriptor : String}
    {look : ClassFile → Except Fault Unit} {change : Index → Index → ClassFile → ClassFile}
    (failed : (do
      let name ← editPool (Pool.internText name)
      let descriptor ← editPool (Pool.internText descriptor)
      inspect look
      modify (change name descriptor) : ClassEdit Unit) file = .error cause after) :
    Stopped file after ∧ (cause = .poolOverflow Pool.maxSlots ∨ ∃ pool, look { file with pool } = .error cause) := by
  have asked (text : String) {file after : ClassFile} (small : file.pool.size ≤ Pool.maxSlots)
      (failed : editPool (Pool.internText text) file = .error cause after) :
      Stopped file after ∧ cause = .poolOverflow Pool.maxSlots := by
    have stopped : editPool (Replacement.text text).intern file = .error cause after := failed
    exact stopped_of_intern small stopped
  rcases edit_bind_eq_error.mp failed with first | ⟨index, middle, named, failed⟩
  · obtain ⟨stopped, full⟩ := asked name small first
    exact ⟨stopped, .inl full⟩
  · obtain ⟨pool, interned, rfl⟩ := editPool_eq_ok.mp named
    have extended := (Pool.internText_eq_ok small interned).1
    rcases edit_bind_eq_error.mp failed with second | ⟨index, middle, described, failed⟩
    · obtain ⟨⟨later, more, rfl⟩, full⟩ := asked descriptor (extended.small small) second
      exact ⟨⟨later, extended.trans more, rfl⟩, .inl full⟩
    · obtain ⟨later, internedToo, rfl⟩ := editPool_eq_ok.mp described
      have more := (Pool.internText_eq_ok (extended.small small) internedToo).1
      rcases edit_bind_eq_error.mp failed with third | ⟨-, middle, -, fourth⟩
      · obtain ⟨missed, rfl⟩ := inspect_eq_error.mp third
        exact ⟨⟨later, extended.trans more, rfl⟩, .inr ⟨later, missed⟩⟩
      · cases fourth

/-- An index is not stored in an attribute that is not there, or outside of its contents. -/
theorem patchAttribute_eq_error {owner : Owner} {position offset : Nat} {index : Index}
    (failed : patchAttribute owner position offset index file = .error cause after) :
    file = after ∧ (file.attributeAt owner position = .error cause ∨
      ∃ item, file.attributeAt owner position = .ok item ∧ item.data.patch offset index = .error cause) := by
  rcases edit_bind_eq_error.mp failed with first | ⟨item, middle, step, failed⟩
  · obtain ⟨missed, rfl⟩ := inspect_eq_error.mp first
    exact ⟨rfl, .inl missed⟩
  · obtain ⟨held, rfl⟩ := inspect_eq_ok.mp step
    rcases edit_bind_eq_error.mp failed with second | ⟨data, middle, -, third⟩
    · obtain ⟨outside, rfl⟩ := inspect_eq_error.mp second
      exact ⟨rfl, .inr ⟨item, held, outside⟩⟩
    · cases third

/-- **A replacement that fails** has put new names behind the pool and changed nothing else. -/
theorem stopped_of_replaceAt (small : file.pool.size ≤ Pool.maxSlots)
    (failed : replaceAt location replacement file = .error cause after) : Stopped file after := by
  cases location <;> cases replacement
  case classConstant.text | methodTypeConstant.text | memberConstant.nameAndType | dynamicConstant.nameAndType =>
    exact (stopped_of_repointAt small failed).1
  case fieldDeclaration.nameAndType | methodDeclaration.nameAndType => exact (stopped_of_texts small failed).1
  case inAttribute.text | inAttribute.nameAndType =>
    rcases edit_bind_eq_error.mp failed with first | ⟨target, middle, step, failed⟩
    · exact (stopped_of_intern small first).1
    · obtain ⟨pool, interned, rfl⟩ := editPool_eq_ok.mp step
      obtain ⟨rfl, -⟩ := patchAttribute_eq_error failed
      exact ⟨pool, (Replacement.intern_eq_ok small interned).1, rfl⟩
  -- the other pairs are refused at once
  all_goals
    cases failed
    exact ⟨file.pool, .refl _, rfl⟩

/-- A site that fails has no answer of the renamer, or a replacement that cannot be stored. -/
theorem renameSite_eq_error (failed : renameSite renamer site file = .error cause after) :
    renamer.replacement? site.symbol = .error cause ∧ file = after ∨
      ∃ replacement, renamer.replacement? site.symbol = .ok (some replacement) ∧
        replaceAt site.location replacement file = .error cause after := by
  unfold renameSite at failed
  by_cases operand : site.location.isInstruction = true
  · rw [if_pos operand] at failed
    cases failed
  · rw [if_neg operand] at failed
    cases asked : renamer.replacement? site.symbol with
    | error other =>
      rw [asked] at failed
      cases failed
      exact .inl ⟨rfl, rfl⟩
    | ok replacement? =>
      rw [asked] at failed
      cases replacement? with
      | none => cases failed
      | some replacement =>
        rcases edit_bind_eq_error.mp failed with first | ⟨-, middle, -, second⟩
        · exact .inr ⟨replacement, rfl, first⟩
        · cases second

/-- **A site that fails** has put new names behind the pool and changed nothing else. -/
theorem stopped_of_renameSite (small : file.pool.size ≤ Pool.maxSlots)
    (failed : renameSite renamer site file = .error cause after) : Stopped file after := by
  rcases renameSite_eq_error failed with ⟨-, rfl⟩ | ⟨replacement, -, failed⟩
  · exact ⟨file.pool, .refl _, rfl⟩
  · exact stopped_of_replaceAt small failed

/-! ### Sound pools all the way -/

theorem Stopped.sound (stopped : Stopped file after) (sound : file.pool.Sound) : after.pool.Sound := by
  obtain ⟨pool, extended, rfl⟩ := stopped
  exact sound.extended extended

/-- **One site** leaves the pool sound: the constant that it repoints is pointed at a name of the kind it needs. -/
theorem sound_of_renameSite {changes : Nat} (sound : file.pool.Sound)
    (stores : site.location.isInstruction = false → file.Stores site.location site.symbol.stored)
    (done : renameSite renamer site file = .ok changes after) : after.pool.Sound := by
  obtain ⟨edited, -, stored⟩ := renameSite_eq_ok sound.small done
  have grown := edited.pool
  refine sound.grown grown fun index before later found refers slot alike => ?_
  by_cases covers : site.location.Covers (.constant index)
  · have stays : site.location.isInstruction = false := by
      cases location : site.location with
      | instruction method pc operand =>
        rw [location] at covers
        cases covers
      | _ => rfl
    obtain ⟨replacement?, -, holds⟩ := stored stays
    exact refersIn_of_stores grown.toKeeps refers alike slot covers (holds (stores stays))
  · rw [edited.constants index before covers (Pool.get_eq_ok.mp found).1] at slot
    cases slot
    exact grown.refersIn refers

/-- **A run over sites that lie apart** leaves the pool sound, whether it ends or stops at a site that fails. -/
theorem sound_of_run (sound : file.pool.Sound)
    (apart : sites.Pairwise fun first second => first.location.Apart second.location)
    (stores : ∀ site ∈ sites, site.location.isInstruction = false →
      file.Stores site.location site.symbol.stored) :
    (finalState (renameFrom renamer sites start file)).pool.Sound := by
  induction apart generalizing file start with
  | nil => exact sound
  | @cons site sites others _ ih =>
    obtain ⟨here, behind⟩ := List.forall_mem_cons.mp stores
    rw [renameFrom, List.foldlM_cons]
    cases step : renameSite renamer site file with
    | error cause middle =>
      rw [edit_bind_of_error (edit_bind_of_error step)]
      exact (stopped_of_renameSite sound.small step).sound sound
    | ok changes middle =>
      have counted : (do return start + (← renameSite renamer site)) file =
          EStateM.Result.ok (start + changes) middle := edit_bind_of_ok step
      rw [edit_bind_of_ok counted]
      refine ih (sound_of_renameSite sound here step) fun other member stays => ?_
      -- the sites behind lie apart from the cells that have changed
      have edited := (renameSite_eq_ok sound.small step).1
      exact edited.stores (fun cell covers touched => others other member cell touched covers)
        (behind other member stays)

/-! ### The states -/

/-- **The states of a class while its sites are renamed one by one**: before the first site, and after any number of
sites, also if the last one of them fails. -/
inductive Reached (renamer : Renamer) (file : ClassFile) : ClassFile → Prop
  | start : Reached renamer file file
  | after {front rest : List Site} (found : file.sites = .ok (front ++ rest)) :
    Reached renamer file (finalState (renameSites renamer front file))

/-- A class that is accepted has a sound pool. -/
theorem sound_of_parse {bytes : Bytes} (parsed : parse bytes = .ok file) : file.pool.Sound := by
  obtain ⟨valid, -, -⟩ := parse_eq_ok_iff.mp parsed
  exact ⟨small_of_parse parsed, valid.laid, valid.checked⟩

theorem Reached.sound {state : ClassFile} (sound : file.pool.Sound) (reached : Reached renamer file state) :
    state.pool.Sound := by
  cases reached with
  | start => exact sound
  | @after front rest found =>
    obtain ⟨context, parts, collected, whole⟩ := sites_eq_ok.mp found
    have apart := collected.pairwise_apart sound.small
    rw [whole] at apart
    refine sound_of_run sound (List.pairwise_append.mp apart).1 fun site member stays => ?_
    refine collected.stores sound.small ?_ stays
    rw [whole]
    exact List.mem_append_left rest member

/-- **The pool of an accepted class stays sound in every state** that its renaming reaches: format checking succeeds,
the slots can be counted, upper halves stand exactly behind constants of two slots. So classes, names and types,
members and the targets of method handles fail to be found only at texts that cannot be decoded. -/
theorem sound_of_reached {bytes : Bytes} (parsed : parse bytes = .ok file) {state : ClassFile}
    (reached : Reached renamer file state) :
    state.pool.check = .ok () ∧ state.pool.size ≤ Pool.maxSlots ∧
      (∀ position : Nat, state.pool.slots[position]? = some .reserved ↔ ∃ before constant,
        position = before + 1 ∧ state.pool.slots[before]? = some constant ∧ constant.isWide = true) ∧
      (∀ index, state.pool.Has .classRef index → state.pool.FailsAtText index (state.pool.className index)) ∧
      (∀ index, state.pool.Has .nameAndType index → state.pool.FailsAtText index (state.pool.nameAndType index)) ∧
      (∀ index (kind : MemberKind), state.pool.Has kind.kind index →
        state.pool.FailsAtText index (state.pool.memberRef index)) ∧
      ∀ index, state.pool.Has .methodHandle index → state.pool.FailsAtText index (do
        let (_, target) ← state.pool.methodHandle index
        state.pool.memberRef target) := by
  have sound := reached.sound (sound_of_parse parsed)
  refine ⟨sound.checked, sound.small, fun position => ?_, fun _ => sound.className, fun _ => sound.nameAndType,
    fun _ _ => sound.memberRef, fun _ => sound.handleTarget⟩
  have halves := sound.laid.reserved_iff position
  simpa only [Array.getElem?_toList] using halves

theorem sound_of_reached_sample : parse sampleBytes = .ok sample ∧ Reached sampleRenamer sample sampleRenamed ∧
    sampleRenamed.pool.check = .ok () ∧ sampleRenamed.pool.FailsAtText 2 (sampleRenamed.pool.className 2) := by
  have parsed : parse sampleBytes = .ok sample := by decide +kernel
  have renamed : sample.rename sampleRenamer = .ok (sampleRenamed, 4) := by decide +kernel
  obtain ⟨sites, found, run⟩ := rename_eq_ok.mp renamed
  rw [← List.append_nil sites] at found
  have reached : Reached sampleRenamer sample _ := .after found
  have whole : renameSites sampleRenamer sites sample = .ok 4 sampleRenamed := run
  rw [whole] at reached
  obtain ⟨checked, -, -, classes, -⟩ := sound_of_reached parsed reached
  refine ⟨parsed, reached, checked, classes 2 ⟨.classRef 11, rfl, rfl⟩⟩

end ClassFile

end JarRename
