import JarRename.Proofs.Archive

/-!
**The entries of a renamed jar.**

If a jar can be renamed, each entry of the output is what the entry at the same position is converted to, and no two
have one name. This holds for every jar, also for one with entries that cannot be read: those are copied as they are.

* `Archive.Converts`, `Archive.renamed_of_converts`: an entry and what it is converted to;
* `Archive.Progress.Tracked`, `Archive.tracked_of_renameEntry`, `Archive.tracked_of_run`: the entries of the output so
  far, by one step and by induction over the entries;
* `Archive.outputs_of_rename`: the whole jar.
-/

namespace JarRename

theorem Run.check_eq_ok {α : Type} {outcome : Except Error α} {value : α} {world later : World} :
    Run.check outcome world = .ok value later ↔ outcome = .ok value ∧ world = later := by
  cases outcome with
  | error error => exact ⟨nofun, fun both => nomatch both.1⟩
  | ok found =>
    show EStateM.Result.ok found world = .ok value later ↔ _
    rw [EStateM.Result.ok.injEq, Except.ok.injEq]

/-- The contents of an entry that can be opened and read. -/
theorem Jar.Entry.contents_eq {entry : Jar.Entry} {bytes : Bytes} (reads : entry.contents = .ok bytes) :
    bytes = entry.data := by
  unfold Jar.Entry.contents at reads
  split at reads
  all_goals cases reads
  rfl

theorem Jar.Entry.readFrom_eq_ok {entry : Jar.Entry} {path : String} {bytes : Bytes} :
    entry.readFrom path = .ok bytes ↔ entry.checkOpens = .ok () ∧ entry.contents = .ok bytes := by
  simp only [readFrom, bind_eq_ok, mapError_eq_ok]
  exact ⟨fun ⟨_, opens, reads⟩ => ⟨opens, reads⟩, fun ⟨opens, reads⟩ => ⟨(), opens, reads⟩⟩

namespace Archive

variable {renamer : Renamer} {path : String} {entry output : Jar.Entry} {entries : List Jar.Entry}
variable {progress next : Progress} {world later : World}

/-! ### One entry -/

/-- The entry of the output that an entry is converted to. -/
def Converts (renamer : Renamer) (path : String) (entry output : Jar.Entry) : Prop :=
  ∃ converted, convert renamer path entry = .ok converted ∧ converted.entry = output

/-- An entry that is no class keeps its name. -/
theorem name_of_converts (converts : Converts renamer path entry output) (other : entry.isClass = false) :
    output.name = entry.name := by
  obtain ⟨converted, done, rfl⟩ := converts
  obtain ⟨⟨⟩, -, done⟩ := bind_eq_ok.mp done
  rw [entry.copies_eq, other] at done
  cases done
  rfl

/-- **A class** is read and renamed, moves with its name, and can be read again. -/
theorem renamed_of_converts (converts : Converts renamer path entry output) (isClass : entry.isClass = true) :
    ∃ renamed, ClassFile.renameBytes renamer entry.data = .ok renamed ∧ entry.readFrom path = .ok entry.data ∧
      output.name = Jar.movedName entry.name renamed.oldName renamed.newName ∧
      ∀ place, output.readFrom place = .ok renamed.bytes := by
  obtain ⟨converted, done, rfl⟩ := converts
  obtain ⟨⟨⟩, opens, done⟩ := bind_eq_ok.mp done
  rw [entry.copies_eq, isClass] at done
  obtain ⟨bytes, reads, done⟩ := bind_eq_ok.mp done
  obtain ⟨renamed, accepted, same⟩ := bind_eq_ok.mp done
  rw [mapError_eq_ok] at opens reads accepted
  obtain rfl := Jar.Entry.contents_eq reads
  cases same
  exact ⟨renamed, accepted, Jar.Entry.readFrom_eq_ok.mpr ⟨opens, reads⟩, rfl, fun _ => rfl⟩

/-! ### The entries so far -/

/-- The names taken are those of the entries so far, and no name is there twice. -/
structure Progress.Tracked (progress : Progress) : Prop where
  taken : ∀ name, progress.taken.contains name = true ↔ name ∈ progress.entries.toList.map Jar.Entry.name
  distinct : (progress.entries.toList.map Jar.Entry.name).Nodup

theorem Progress.tracked_start : ({} : Progress).Tracked where
  taken := by simp
  distinct := .nil

/-- **One entry more** stands behind those so far, under a name that none of them has. -/
theorem tracked_of_renameEntry (tracked : progress.Tracked)
    (done : renameEntry renamer path progress entry world = .ok next later) :
    next.Tracked ∧ ∃ output, Converts renamer path entry output ∧
      next.entries.toList = progress.entries.toList ++ [output] := by
  obtain ⟨converted, middle, checked, done⟩ := edit_bind_eq_ok.mp done
  obtain ⟨converts, rfl⟩ := Run.check_eq_ok.mp checked
  obtain ⟨⟨⟩, logged, -, done⟩ := edit_bind_eq_ok.mp done
  by_cases claimed : progress.taken.contains converted.entry.name = true
  · rw [if_pos claimed] at done
    cases done
  · rw [if_neg claimed] at done
    obtain ⟨rfl, rfl⟩ := edit_pure_eq_ok.mp done
    have entries : (progress.add entry.name converted).entries.toList =
        progress.entries.toList ++ [converted.entry] := Array.toList_push
    refine ⟨⟨fun name => ?_, ?_⟩, converted.entry, ⟨converted, converts, rfl⟩, entries⟩
    · rw [entries, List.map_append, List.mem_append, ← tracked.taken, List.map_singleton, List.mem_singleton]
      exact progress.contains_add entry.name converted name
    · rw [entries, List.map_append, List.map_singleton]
      refine List.nodup_append.mpr ⟨tracked.distinct, by simp, fun name known other last same => ?_⟩
      rw [List.mem_singleton.mp last] at same
      exact claimed ((tracked.taken _).mpr (same ▸ known))

/-- **All entries** stand behind those so far, in order. -/
theorem tracked_of_run (tracked : progress.Tracked)
    (done : entries.foldlM (renameEntry renamer path) progress world = .ok next later) :
    next.Tracked ∧ ∃ outputs, List.Forall₂ (Converts renamer path) entries outputs ∧
      next.entries.toList = progress.entries.toList ++ outputs := by
  induction entries generalizing progress world with
  | nil =>
    obtain ⟨rfl, rfl⟩ := edit_pure_eq_ok.mp done
    exact ⟨tracked, [], .nil, (List.append_nil _).symm⟩
  | cons entry entries ih =>
    rw [List.foldlM_cons] at done
    obtain ⟨middle, between, step, rest⟩ := edit_bind_eq_ok.mp done
    obtain ⟨trackedNext, output, here, added⟩ := tracked_of_renameEntry tracked step
    obtain ⟨trackedLast, outputs, others, all⟩ := ih trackedNext rest
    refine ⟨trackedLast, output :: outputs, .cons here others, ?_⟩
    rw [all, added, List.append_assoc, List.singleton_append]

/-! ### The whole jar -/

/-- **The output of a renamed jar** has what each entry is converted to, in order and under different names. -/
theorem outputs_of_rename {input place : String} {summary : Summary} (read : world.files.readJar input = .ok entries)
    (done : rename renamer input place world = .ok summary later) :
    ∃ outputs, later.files.readJar place = .ok outputs ∧ List.Forall₂ (Converts renamer input) entries outputs ∧
      (outputs.map Jar.Entry.name).Nodup := by
  have files : Run.files world = .ok world.files world := rfl
  rw [rename, edit_bind_of_ok files, edit_bind_of_ok (Run.check_of_ok read world)] at done
  obtain ⟨⟨⟩, first, -, done⟩ := edit_bind_eq_ok.mp done
  obtain ⟨progress, second, ran, done⟩ := edit_bind_eq_ok.mp done
  obtain ⟨written, third, checked, done⟩ := edit_bind_eq_ok.mp done
  obtain ⟨wrote, rfl⟩ := Run.check_eq_ok.mp checked
  obtain ⟨tracked, outputs, converts, entries⟩ := tracked_of_run Progress.tracked_start ran
  obtain rfl : progress.entries.toList = outputs := entries
  cases done
  exact ⟨_, Files.readJar_write (mapError_eq_ok.mp wrote), converts, tracked.distinct⟩

end Archive

end JarRename
