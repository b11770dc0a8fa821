import JarRename.Proofs.Renaming.Step
import JarRename.Proofs.Site.Parts

/-!
**All sites renamed.**

The sites of a class are renamed one after the other, each with the answer for the names before the renaming.
As the sites lie apart, each holds its own replacement in the end.

* `ClassFile.edited_of_run`, `ClassFile.stores_of_run`: what a run changes and what it stores, by induction over
  its sites;
* `ClassFile.Outcome`, `ClassFile.outcome_of_rename`: the class after all its sites are renamed.
-/

namespace JarRename.ClassFile

variable {renamer : Renamer} {file after : ClassFile} {sites : List Site} {start count : Nat}

/-! ### Runs -/

/-- Sites renamed one by one, with the number of changes added to those made before. -/
def renameFrom (renamer : Renamer) (sites : List Site) (start : Nat) : ClassEdit Nat :=
  sites.foldlM (fun count site => do return count + (← renameSite renamer site)) start

/-- A run is a step and a run. -/
theorem renameFrom_cons {site : Site} :
    renameFrom renamer (site :: sites) start file = .ok count after ↔
      ∃ changes middle, renameSite renamer site file = .ok changes middle ∧
        renameFrom renamer sites (start + changes) middle = .ok count after := by
  rw [renameFrom, List.foldlM_cons, edit_bind_eq_ok]
  constructor
  · rintro ⟨total, middle, step, rest⟩
    obtain ⟨changes, between, renamed, same⟩ := edit_bind_eq_ok.mp step
    obtain ⟨rfl, rfl⟩ := edit_pure_eq_ok.mp same
    exact ⟨changes, between, renamed, rest⟩
  · rintro ⟨changes, middle, step, rest⟩
    exact ⟨start + changes, middle, edit_bind_eq_ok.mpr ⟨changes, middle, step, rfl⟩, rest⟩

/-- A run changes the cells of its sites, and adds at most three slots for every change. -/
theorem edited_of_run (small : file.pool.size ≤ Pool.maxSlots)
    (done : renameFrom renamer sites start file = .ok count after) :
    Edited (fun cell => ∃ site ∈ sites, site.location.Covers cell) file after ∧
      after.pool.size + 3 * start ≤ file.pool.size + 3 * count := by
  induction sites generalizing file start with
  | nil =>
    obtain ⟨rfl, rfl⟩ := edit_pure_eq_ok.mp done
    exact ⟨.refl _ _, Nat.le_refl _⟩
  | cons site sites ih =>
    obtain ⟨changes, middle, step, rest⟩ := renameFrom_cons.mp done
    obtain ⟨edited, size, -⟩ := renameSite_eq_ok small step
    obtain ⟨later, laterSize⟩ := ih (edited.pool.small small) rest
    refine ⟨(edited.mono fun cell covers => ⟨site, List.mem_cons_self, covers⟩).trans
      (later.mono fun cell covers => ?_), by omega⟩
    obtain ⟨other, member, covers⟩ := covers
    exact ⟨other, List.mem_cons_of_mem _ member, covers⟩

/-- After a run over sites that lie apart, each site holds its replacement, or its symbol if that has none. -/
theorem stores_of_run (small : file.pool.size ≤ Pool.maxSlots)
    (apart : sites.Pairwise fun first second => first.location.Apart second.location)
    (stores : ∀ site ∈ sites, site.location.isInstruction = false →
      file.Stores site.location site.symbol.stored)
    (done : renameFrom renamer sites start file = .ok count after) :
    ∀ site ∈ sites, site.location.isInstruction = false → ∃ replacement?,
      renamer.replacement? site.symbol = .ok replacement? ∧
      after.Stores site.location (replacement?.getD site.symbol.stored) := by
  induction apart generalizing file start with
  | nil => exact fun _ member => absurd member List.not_mem_nil
  | @cons site sites others _ ih =>
    obtain ⟨changes, middle, step, rest⟩ := renameFrom_cons.mp done
    obtain ⟨edited, -, stored⟩ := renameSite_eq_ok small step
    have middleSmall := edited.pool.small small
    have later := (edited_of_run middleSmall rest).1
    intro other member stays
    obtain rfl | member := List.mem_cons.mp member
    · -- no later site shares a cell with the first
      obtain ⟨replacement?, asked, holds⟩ := stored stays
      refine ⟨replacement?, asked, later.stores (fun cell covers touched => ?_)
        (holds (stores other List.mem_cons_self stays))⟩
      obtain ⟨third, inside, covered⟩ := touched
      exact others third inside cell covers covered
    · refine ih middleSmall (fun third inside here => ?_) rest other member stays
      exact edited.stores (fun cell covers touched => others third inside cell touched covers)
        (stores third (List.mem_cons_of_mem _ inside) here)

/-! ### The class renamed -/

/-- A class and its sites after all of them are renamed. -/
structure Outcome (renamer : Renamer) (file : ClassFile) (context : SiteContext) (parts : SiteParts)
    (after : ClassFile) (count : Nat) : Prop where
  collected : file.Collected context parts
  edited : Edited (fun cell => ∃ site ∈ parts.all, site.location.Covers cell) file after
  size : after.pool.size ≤ file.pool.size + 3 * count
  stores : ∀ site ∈ parts.all, site.location.isInstruction = false → ∃ replacement?,
    renamer.replacement? site.symbol = .ok replacement? ∧
    after.Stores site.location (replacement?.getD site.symbol.stored)

/-- A class is renamed by a run over its sites. -/
theorem rename_eq_ok : file.rename renamer = .ok (after, count) ↔
    ∃ sites, file.sites = .ok sites ∧ renameFrom renamer sites 0 file = .ok count after := by
  rw [rename, bind_eq_ok]
  refine exists_congr fun sites => and_congr_right fun _ => ?_
  have run : renameSites renamer sites file = renameFrom renamer sites 0 file := rfl
  rw [run]
  cases renameFrom renamer sites 0 file with
  | error cause rest => exact iff_of_false nofun nofun
  | ok total result => simp [pure_eq_ok, and_comm]

/-- **Renaming a class** changes the cells of its sites only, and leaves each site with its replacement. -/
theorem outcome_of_rename (small : file.pool.size ≤ Pool.maxSlots)
    (done : file.rename renamer = .ok (after, count)) :
    ∃ context parts, Outcome renamer file context parts after count := by
  obtain ⟨sites, found, run⟩ := rename_eq_ok.mp done
  obtain ⟨context, parts, collected, rfl⟩ := sites_eq_ok.mp found
  obtain ⟨edited, size⟩ := edited_of_run small run
  exact ⟨context, parts, collected, edited, size,
    stores_of_run small (collected.pairwise_apart small)
      (fun site member stays => collected.stores small member stays) run⟩

end JarRename.ClassFile
