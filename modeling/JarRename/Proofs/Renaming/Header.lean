import JarRename.Proofs.ClassFile.Header
import JarRename.Proofs.Hierarchy.Renamed
import JarRename.Proofs.Renaming.Constants
import JarRename.Proofs.Renaming.Validity

/-!
**The header of a renamed class is the renamed header.**

The class, its superclass and its interfaces are constants of the class, which hold their new names after a renaming.
The same holds where nothing changes and the bytes stay as they are.

* `ClassFile.Collected.exists_header`: a class with sites has a header;
* `ClassFile.Outcome.header`: the header after a renaming;
* `ClassFile.eq_of_run`: a run without changes;
* `ClassFile.header_of_renameBytes`: the headers in the bytes before and after.
-/

namespace JarRename.ClassFile

variable {renamer : Renamer} {file after : ClassFile} {context : SiteContext} {parts : SiteParts} {count : Nat}

/-! ### Before the renaming -/

/-- Every class constant has a site, so its name can be read. -/
theorem Collected.exists_className (collected : file.Collected context parts)
    (small : file.pool.size ≤ Pool.maxSlots) {index : Index} (has : file.pool.Has .classRef index) :
    ∃ name, file.pool.className index = .ok name := by
  obtain ⟨constant, found, kind⟩ := has
  cases constant <;> cases kind
  obtain ⟨site, -, done, -⟩ := collected.constant small found rfl
  rw [SiteContext.constantSite?, collected.pool, found, ok_bind] at done
  obtain ⟨name, read, -⟩ := bind_eq_ok.mp done
  exact ⟨name, read⟩

/-- A class whose sites can be found has a header. -/
theorem Collected.exists_header (collected : file.Collected context parts)
    (small : file.pool.size ≤ Pool.maxSlots) (valid : file.WellFormed) : ∃ header, file.header = .ok header := by
  have kinds : ∀ index ∈ file.headerIndices, file.pool.Has .classRef index :=
    List.forall_mem_cons.mpr ⟨valid.thisClass,
      List.forall_mem_append.mpr ⟨fun index member => valid.superClass index (Option.mem_toList.mp member),
        valid.interfaces⟩⟩
  exact exists_header_iff.mpr fun index member => collected.exists_className small (kinds index member)

/-! ### After the renaming -/

/-- The index of a class that is no array stands for its new name. -/
theorem Outcome.className_plain (outcome : Outcome renamer file context parts after count)
    (small : file.pool.size ≤ Pool.maxSlots) {index : Index} {name : String}
    (read : file.pool.className index = .ok name) (plain : Renamer.isArray name = false) :
    after.pool.className index = .ok (renameOrKeep renamer.mapClass name) := by
  obtain ⟨new, mapped, again⟩ := outcome.className small read
  cases (Renamer.newType_of_not_isArray plain).symm.trans mapped
  exact again

theorem Outcome.classNames_plain (outcome : Outcome renamer file context parts after count)
    (small : file.pool.size ≤ Pool.maxSlots) {indices : List Index} {names : List String}
    (read : indices.mapM file.pool.className = .ok names) (plain : ∀ name ∈ names, Renamer.isArray name = false) :
    indices.mapM after.pool.className = .ok (names.map (renameOrKeep renamer.mapClass)) := by
  have each := mapM_eq_ok.mp read
  refine mapM_eq_ok.mpr (List.forall₂_map_right_iff.mpr ?_)
  clear read
  induction each with
  | nil => exact .nil
  | cons here _ ih =>
    obtain ⟨plainHere, plainLater⟩ := List.forall_mem_cons.mp plain
    exact .cons (outcome.className_plain small here plainHere) (ih plainLater)

/-- **The header after a renaming** is the renamed header, if no array is in it. -/
theorem Outcome.header (outcome : Outcome renamer file context parts after count)
    (small : file.pool.size ≤ Pool.maxSlots) {header : Header} (read : file.header = .ok header)
    (plain : ∀ name ∈ header.names, Renamer.isArray name = false) :
    after.header = .ok (header.rename (renameOrKeep renamer.mapClass)) := by
  obtain ⟨named, superNamed, listed, sameFlags⟩ := header_eq_ok.mp read
  obtain ⟨name, superName?, interfaces, flags⟩ := header
  have outline := outcome.edited.outline
  refine header_eq_ok.mpr ⟨?_, ?_, ?_, (congrArg Outline.flags outline).trans sameFlags⟩
  · have thisClass : after.thisClass = file.thisClass := congrArg Outline.thisClass outline
    rw [ClassFile.name, thisClass]
    exact outcome.className_plain small named (plain _ List.mem_cons_self)
  · have superClass : after.superClass = file.superClass := congrArg Outline.superClass outline
    unfold ClassFile.superName at superNamed ⊢
    rw [superClass]
    cases found : file.superClass with
    | none =>
      rw [found] at superNamed
      cases superNamed
      rfl
    | some index =>
      rw [found] at superNamed
      obtain ⟨superName, here, same⟩ := bind_eq_ok.mp superNamed
      cases same
      have member : superName ∈ Header.names ⟨name, some superName, interfaces, flags⟩ := by simp [Header.names]
      exact bind_eq_ok.mpr ⟨_, outcome.className_plain small here (plain _ member), rfl⟩
  · have sameInterfaces : after.interfaces = file.interfaces := congrArg Outline.interfaces outline
    have inside : ∀ interface ∈ interfaces, Renamer.isArray interface = false := fun interface member =>
      plain interface (List.mem_cons_of_mem _ (List.mem_append_right _ member))
    rw [ClassFile.interfaceNames, sameInterfaces]
    exact outcome.classNames_plain small listed inside

/-! ### In bytes -/

/-- A site without a change leaves the class as it is. -/
theorem eq_of_renameSite {site : Site} (done : renameSite renamer site file = .ok 0 after) : after = file := by
  unfold renameSite at done
  by_cases operand : site.location.isInstruction = true
  · rw [if_pos operand] at done
    cases done
    rfl
  · rw [if_neg operand] at done
    cases asked : renamer.replacement? site.symbol with
    | error cause =>
      rw [asked] at done
      cases done
    | ok replacement? =>
      rw [asked] at done
      cases replacement? with
      | none =>
        cases done
        rfl
      | some replacement =>
        obtain ⟨-, middle, -, done⟩ := edit_bind_eq_ok.mp done
        cases (edit_pure_eq_ok.mp done).1

/-- **A run without changes** leaves the class as it is. -/
theorem eq_of_run {sites : List Site} {start : Nat} (done : renameFrom renamer sites start file = .ok count after) :
    start ≤ count ∧ (count = start → after = file) := by
  induction sites generalizing file start with
  | nil =>
    obtain ⟨rfl, rfl⟩ := edit_pure_eq_ok.mp done
    exact ⟨Nat.le_refl _, fun _ => rfl⟩
  | cons site sites ih =>
    obtain ⟨changes, middle, step, rest⟩ := renameFrom_cons.mp done
    obtain ⟨atLeast, same⟩ := ih rest
    refine ⟨by omega, fun none => ?_⟩
    obtain rfl : changes = 0 := by omega
    rw [same none, eq_of_renameSite step]

/-- A class without changes stays as it is. -/
theorem eq_of_rename (done : file.rename renamer = .ok (after, 0)) : after = file := by
  obtain ⟨sites, -, run⟩ := rename_eq_ok.mp done
  exact (eq_of_run run).2 rfl

/-- **The headers in bytes before and after a renaming.** Both can be read, and the second one is the first one
renamed, if no array is in it. -/
theorem header_of_renameBytes {bytes : Bytes} {renamed : Renamed} (done : renameBytes renamer bytes = .ok renamed) :
    ∃ header, Header.parse bytes = .ok header ∧ renamed.oldName = header.name ∧
      ((∀ name ∈ header.names, Renamer.isArray name = false) →
        renamed.newName = renameOrKeep renamer.mapClass header.name ∧
        Header.parse renamed.bytes = .ok (header.rename (renameOrKeep renamer.mapClass))) := by
  obtain ⟨file, parsed, done⟩ := bind_eq_ok.mp done
  obtain ⟨oldName, named, done⟩ := bind_eq_ok.mp done
  obtain ⟨⟨after, count⟩, ran, done⟩ := bind_eq_ok.mp done
  have small := small_of_parse parsed
  obtain ⟨context, parts, outcome⟩ := outcome_of_rename small ran
  obtain ⟨valid, checked, -⟩ := parse_eq_ok_iff.mp parsed
  obtain ⟨header, read⟩ := outcome.collected.exists_header small valid
  have sameName := (header_eq_ok.mp read).1
  cases named.symm.trans sameName
  dsimp only at done
  by_cases unchanged : count = 0
  · subst unchanged
    rw [if_pos rfl] at done
    cases done
    refine ⟨header, (Header.parse_of_read (read_of_parse parsed)).mpr read, rfl, fun plain => ?_⟩
    -- the renamed header is that of the same class
    have again := outcome.header small read plain
    rw [eq_of_rename ran] at again
    have renamedName : header.name = renameOrKeep renamer.mapClass header.name :=
      congrArg Header.name (Except.ok.inj (read.symm.trans again))
    exact ⟨renamedName, (Header.parse_of_read (read_of_parse parsed)).mpr again⟩
  · rw [if_neg unchanged] at done
    obtain ⟨newName, newNamed, done⟩ := bind_eq_ok.mp done
    obtain ⟨written, wrote, done⟩ := bind_eq_ok.mp done
    cases done
    refine ⟨header, (Header.parse_of_read (read_of_parse parsed)).mpr read, rfl, fun plain => ?_⟩
    have again := outcome.header small read plain
    have parsedAgain : parse written = .ok after :=
      parse_eq_ok_iff.mpr ⟨outcome.wellFormed small valid,
        checkCode_eq_ok.mpr (outcome.codeAccepted small (checkCode_eq_ok.mp checked)), wrote⟩
    refine ⟨?_, (Header.parse_of_read (read_of_parse parsedAgain)).mpr again⟩
    cases newNamed.symm.trans (header_eq_ok.mp again).1
    rfl

end JarRename.ClassFile
