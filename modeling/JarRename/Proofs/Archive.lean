import JarRename.Archive
import JarRename.Proofs.Files
import JarRename.Proofs.Mapping.Table
import JarRename.Proofs.Renaming.Frame

/-!
**Renaming an archive is all or nothing.**

The entries of a jar are renamed in order, and each gets a name that no entry in front of it has. A jar in which every
class is accepted and all names differ is written as a whole. Otherwise nothing is written, and the error is that of
the first entry that is not accepted or whose name is taken.

* `Archive.target`, `Archive.Becomes`: the name of an entry in the output, and the entry there;
* `Archive.Renamable`, `Archive.Fails`: jars that can be renamed, and what can keep an entry from it;
* `Archive.convert_cases`, `Archive.renameEntry_cases`: what happens to one entry;
* `Archive.Covers`, `Archive.renameFrom_cases`: the entries of the output so far, by induction over those of the input;
* `Archive.rename_outcome`: the whole jar.
-/

namespace JarRename

/-- Whether an entry is renamed as a class. -/
def Jar.Entry.isClass (entry : Jar.Entry) : Bool :=
  !entry.isDirectory && Jar.isClassEntry entry.name

/-- All other entries are copied. -/
theorem Jar.Entry.copies_eq (entry : Jar.Entry) :
    (entry.isDirectory || !Jar.isClassEntry entry.name) = !entry.isClass := by
  rw [isClass, Bool.not_and, Bool.not_not]

namespace Run

variable {α : Type} {outcome : Except Error α}

theorem check_of_ok {value : α} (done : outcome = .ok value) (world : World) :
    check outcome world = .ok value world := by
  rw [done]
  rfl

theorem check_of_error {error : Error} (failed : outcome = .error error) (world : World) :
    check outcome world = .error error world := by
  rw [failed]
  rfl

end Run

namespace Archive

variable {renamer : Renamer} {path : String} {entry output : Jar.Entry} {entries rest : List Jar.Entry}
variable {progress : Progress} {world : World} {converted : Converted}

/-! ### One entry -/

/-- An entry that is a class is accepted by the renamer. -/
def Accepted (renamer : Renamer) (entry : Jar.Entry) : Prop :=
  entry.isClass = true → ∃ renamed, ClassFile.renameBytes renamer entry.data = .ok renamed

/-- Whether an entry that is a class is accepted by the renamer. -/
def accepts (renamer : Renamer) (entry : Jar.Entry) : Bool :=
  !entry.isClass || (ClassFile.renameBytes renamer entry.data).isOk

theorem accepted_of_accepts (checked : accepts renamer entry = true) : Accepted renamer entry := by
  intro isClass
  rw [accepts, isClass] at checked
  cases outcome : ClassFile.renameBytes renamer entry.data with
  | ok renamed => exact ⟨renamed, rfl⟩
  | error cause =>
    rw [outcome] at checked
    cases checked

/-- The name of an entry in the output: that of the path of the renamed class, or its own. -/
def target (renamer : Renamer) (entry : Jar.Entry) : String :=
  if entry.isClass then
    match ClassFile.renameBytes renamer entry.data with
    | .ok renamed => Jar.movedName entry.name renamed.oldName renamed.newName
    | .error _ => entry.name
  else entry.name

/-- An entry and what becomes of it in the output. -/
inductive Becomes (renamer : Renamer) (entry output : Jar.Entry) : Prop
  | copied (other : entry.isClass = false) (name : output.name = entry.name)
    (contents : output.contents = .ok entry.data)
  | renamed (isClass : entry.isClass = true) (renamed : ClassFile.Renamed)
    (accepted : ClassFile.renameBytes renamer entry.data = .ok renamed)
    (name : output.name = Jar.movedName entry.name renamed.oldName renamed.newName)
    (contents : output.contents = .ok renamed.bytes)

/-- What keeps an entry behind others from being renamed. -/
inductive Fails (renamer : Renamer) (before : List Jar.Entry) (entry : Jar.Entry) : Error → Prop
  | malformed {cause : Fault} (isClass : entry.isClass = true)
    (rejected : ClassFile.renameBytes renamer entry.data = .error cause) :
    Fails renamer before entry (.malformedClass entry.name cause)
  | duplicate (accepted : Accepted renamer entry) (claimed : target renamer entry ∈ before.map (target renamer)) :
    Fails renamer before entry (.duplicate (target renamer entry))

/-- All classes are accepted and all names in the output differ. -/
structure Renamable (renamer : Renamer) (entries : List Jar.Entry) : Prop where
  accepted : ∀ entry ∈ entries, Accepted renamer entry
  distinct : (entries.map (target renamer)).Nodup

theorem Becomes.accepted (becomes : Becomes renamer entry output) : Accepted renamer entry := by
  intro isClass
  cases becomes with
  | copied other => cases isClass.symm.trans other
  | renamed _ renamed accepted => exact ⟨renamed, accepted⟩

theorem Becomes.name_eq (becomes : Becomes renamer entry output) : output.name = target renamer entry := by
  unfold target
  cases becomes with
  | copied other name => rw [other, name, if_neg Bool.false_ne_true]
  | renamed isClass renamed accepted name => rw [isClass, accepted, name, if_pos rfl]

/-- The names of the entries in the output. -/
theorem map_name_of_becomes {outputs : List Jar.Entry} (becomes : List.Forall₂ (Becomes renamer) entries outputs) :
    outputs.map Jar.Entry.name = entries.map (target renamer) := by
  induction becomes with
  | nil => rfl
  | cons first _ ih => rw [List.map_cons, List.map_cons, first.name_eq, ih]

/-- An entry that fails is in no jar that can be renamed. -/
theorem Fails.not_renamable {before after : List Jar.Entry} {error : Error} (fails : Fails renamer before entry error) :
    ¬Renamable renamer (before ++ entry :: after) := by
  intro renamable
  cases fails with
  | malformed isClass rejected =>
    obtain ⟨renamed, accepted⟩ := renamable.accepted entry (by simp) isClass
    cases rejected.symm.trans accepted
  | duplicate _ claimed =>
    have distinct := renamable.distinct
    rw [List.map_append, List.map_cons, List.nodup_append] at distinct
    exact distinct.2.2 _ claimed _ List.mem_cons_self rfl

/-- An entry that can be read and is no class is copied. -/
theorem convert_other (renamer : Renamer) (path : String) (sound : entry.damage = none)
    (other : entry.isClass = false) : convert renamer path entry = .ok (.copied entry.copied) := by
  have opens : entry.checkOpens = .ok () := by rw [Jar.Entry.checkOpens, sound]
  unfold convert
  rw [opens, entry.copies_eq, other]
  rfl

/-- An entry that can be read and is a class is renamed. -/
theorem convert_class (renamer : Renamer) (path : String) (sound : entry.damage = none)
    (isClass : entry.isClass = true) : convert renamer path entry =
      (ClassFile.renameBytes renamer entry.data).mapError (.malformedClass entry.name) >>= fun renamed =>
        .ok (.renamed (entry.replaced (Jar.movedName entry.name renamed.oldName renamed.newName) renamed.bytes)
          renamed.changes) := by
  have opens : entry.checkOpens = .ok () := by rw [Jar.Entry.checkOpens, sound]
  have reads : entry.contents = .ok entry.data := by rw [Jar.Entry.contents, sound]
  unfold convert
  rw [opens, entry.copies_eq, isClass, reads]
  rfl

/-- **What happens to an entry** that can be read. -/
theorem convert_cases (renamer : Renamer) (path : String) (sound : entry.damage = none) :
    (∃ converted, convert renamer path entry = .ok converted ∧ Becomes renamer entry converted.entry ∧
      ∀ copy, converted = .copied copy → copy.name = entry.name) ∨
    ∃ cause, convert renamer path entry = .error (.malformedClass entry.name cause) ∧ entry.isClass = true ∧
      ClassFile.renameBytes renamer entry.data = .error cause := by
  cases isClass : entry.isClass with
  | false =>
    have reads : entry.copied.contents = .ok entry.data := by simp [Jar.Entry.contents, Jar.Entry.copied, sound]
    refine .inl ⟨_, convert_other renamer path sound isClass, .copied isClass rfl reads, ?_⟩
    rintro copy ⟨⟩
    rfl
  | true =>
    rw [convert_class renamer path sound isClass]
    cases accepted : ClassFile.renameBytes renamer entry.data with
    | error cause => exact .inr ⟨cause, rfl, rfl, rfl⟩
    | ok renamed => exact .inl ⟨_, rfl, .renamed isClass renamed accepted rfl rfl, fun _ same => nomatch same⟩

/-! ### The entries so far -/

/-- The names of entries before and after, where they differ. -/
def moves (entries outputs : List Jar.Entry) : List (String × String) :=
  ((entries.map Jar.Entry.name).zip (outputs.map Jar.Entry.name)).filter fun names => names.1 != names.2

/-- The progress is that after some entries, all of which were renamed. -/
structure Covers (renamer : Renamer) (entries : List Jar.Entry) (progress : Progress) : Prop where
  renamable : Renamable renamer entries
  outputs : List.Forall₂ (Becomes renamer) entries progress.entries.toList
  taken : ∀ name, progress.taken.contains name = true ↔ name ∈ entries.map (target renamer)
  counted : progress.summary.classes + progress.summary.resources = entries.length
  moved : progress.summary.renamed = moves entries progress.entries.toList

theorem Covers.start (renamer : Renamer) : Covers renamer [] {} where
  renamable := ⟨nofun, .nil⟩
  outputs := .nil
  taken := by simp
  counted := rfl
  moved := rfl

/-- The summary with one entry more. -/
theorem Progress.summary_add (progress : Progress) (oldName : String) {converted : Converted}
    (stays : ∀ copy, converted = .copied copy → copy.name = oldName) :
    (progress.add oldName converted).summary.classes + (progress.add oldName converted).summary.resources =
        progress.summary.classes + progress.summary.resources + 1 ∧
      (progress.add oldName converted).summary.renamed =
        progress.summary.renamed ++ [(oldName, converted.entry.name)].filter fun names => names.1 != names.2 := by
  cases converted with
  | copied copy =>
    have same : copy.name = oldName := stays copy rfl
    constructor
    · show progress.summary.classes + (progress.summary.resources + 1) = _
      omega
    · simp [Progress.add, Converted.entry, same]
  | renamed entry changes =>
    constructor
    · show progress.summary.classes + 1 + progress.summary.resources = _
      omega
    · by_cases same : entry.name = oldName
      · simp [Progress.add, Converted.entry, same]
      · simp [Progress.add, Converted.entry, same, Ne.symm same]

/-- One name more is taken. -/
theorem Progress.contains_add (progress : Progress) (oldName : String) (converted : Converted) (name : String) :
    (progress.add oldName converted).taken.contains name = true ↔
      progress.taken.contains name = true ∨ name = converted.entry.name := by
  simp only [Progress.add, Std.HashSet.contains_insert, Bool.or_eq_true, beq_iff_eq]
  rw [or_comm, @eq_comm _ name]

/-- The names of entries with one more behind them. -/
theorem moves_concat {outputs : List Jar.Entry} (length : entries.length = outputs.length) :
    moves (entries ++ [entry]) (outputs ++ [output]) =
      moves entries outputs ++ [(entry.name, output.name)].filter fun names => names.1 != names.2 := by
  unfold moves
  rw [List.map_append, List.map_append, List.zip_append (by simpa using length), List.filter_append]
  rfl

/-- **One entry more** is covered, if its name is not taken. -/
theorem Covers.add (covers : Covers renamer entries progress) (becomes : Becomes renamer entry converted.entry)
    (stays : ∀ copy, converted = .copied copy → copy.name = entry.name)
    (fresh : target renamer entry ∉ entries.map (target renamer)) :
    Covers renamer (entries ++ [entry]) (progress.add entry.name converted) := by
  obtain ⟨counted, moved⟩ := progress.summary_add entry.name stays
  have outputs : (progress.add entry.name converted).entries.toList =
      progress.entries.toList ++ [converted.entry] := Array.toList_push
  constructor
  case renamable =>
    constructor
    · intro other member
      rcases List.mem_append.mp member with member | member
      · exact covers.renamable.accepted other member
      · rw [List.mem_singleton.mp member]
        exact becomes.accepted
    · rw [List.map_append, List.map_singleton]
      refine List.nodup_append.mpr ⟨covers.renamable.distinct, by simp, ?_⟩
      intro name known other last same
      rw [List.mem_singleton.mp last] at same
      exact fresh (same ▸ known)
  case outputs =>
    rw [outputs]
    exact List.rel_append covers.outputs (.cons becomes .nil)
  case taken =>
    intro name
    rw [List.map_append, List.mem_append, ← covers.taken, List.map_singleton, List.mem_singleton, ← becomes.name_eq]
    exact progress.contains_add entry.name converted name
  case counted => rw [counted, covers.counted, List.length_append, List.length_singleton]
  case moved => rw [moved, outputs, moves_concat covers.outputs.length_eq, covers.moved]

/-- The step for an entry that is converted. It only logs a line. -/
theorem renameEntry_of_convert (progress : Progress) (world : World)
    (converts : convert renamer path entry = .ok converted) :
    ∃ later, later.files = world.files ∧ renameEntry renamer path progress entry world =
      if progress.taken.contains converted.entry.name then .error (.duplicate converted.entry.name) later
      else .ok (progress.add entry.name converted) later := by
  obtain ⟨later, logged, same⟩ : ∃ later, Run.log .debug (noteOf entry converted) world = .ok () later ∧
      later.files = world.files := ⟨_, rfl, rfl⟩
  refine ⟨later, same, ?_⟩
  rw [renameEntry, edit_bind_of_ok (Run.check_of_ok converts world), edit_bind_of_ok logged]
  split_ifs <;> rfl

/-- **One entry more** is covered, or fails and leaves all files as they are. -/
theorem renameEntry_cases (path : String) (covers : Covers renamer entries progress) (sound : entry.damage = none)
    (world : World) :
    (∃ next later, renameEntry renamer path progress entry world = .ok next later ∧ later.files = world.files ∧
      Covers renamer (entries ++ [entry]) next) ∨
    ∃ error later, renameEntry renamer path progress entry world = .error error later ∧
      later.files = world.files ∧ Fails renamer entries entry error := by
  rcases convert_cases renamer path sound with
    ⟨converted, converts, becomes, stays⟩ | ⟨cause, failed, isClass, rejected⟩
  · obtain ⟨later, same, step⟩ := renameEntry_of_convert progress world converts
    have claimed := covers.taken (target renamer entry)
    rw [becomes.name_eq] at step
    by_cases taken : progress.taken.contains (target renamer entry) = true
    · rw [if_pos taken] at step
      exact .inr ⟨_, later, step, same, .duplicate becomes.accepted (claimed.mp taken)⟩
    · rw [if_neg taken] at step
      exact .inl ⟨_, later, step, same, covers.add becomes stays fun member => taken (claimed.mpr member)⟩
  · refine .inr ⟨_, world, ?_, rfl, .malformed isClass rejected⟩
    rw [renameEntry]
    exact edit_bind_of_error (Run.check_of_error failed world)

/-- **All entries** are covered, or the first one that fails ends the run, which leaves all files as they are. -/
theorem renameFrom_cases (path : String) (covers : Covers renamer entries progress)
    (sound : ∀ entry ∈ rest, entry.damage = none) (world : World) :
    (∃ final later, rest.foldlM (renameEntry renamer path) progress world = .ok final later ∧
      later.files = world.files ∧ Covers renamer (entries ++ rest) final) ∨
    ∃ error later, rest.foldlM (renameEntry renamer path) progress world = .error error later ∧
      later.files = world.files ∧ ∃ before entry after, rest = before ++ entry :: after ∧
        Renamable renamer (entries ++ before) ∧ Fails renamer (entries ++ before) entry error := by
  induction rest generalizing entries progress world with
  | nil => exact .inl ⟨progress, world, rfl, rfl, by rwa [List.append_nil]⟩
  | cons entry rest ih =>
    rw [List.foldlM_cons]
    obtain ⟨soundHere, soundLater⟩ := List.forall_mem_cons.mp sound
    rcases renameEntry_cases path covers soundHere world with
      ⟨next, middle, step, same, coversNext⟩ | ⟨error, later, step, same, fails⟩
    · rw [edit_bind_of_ok step, ← same]
      rcases ih coversNext soundLater middle with
        ⟨final, later, run, sameLater, covered⟩ | ⟨error, later, run, sameLater, before, failing, after, split, ended⟩
      · exact .inl ⟨final, later, run, sameLater, by simpa using covered⟩
      · refine .inr ⟨error, later, run, sameLater, entry :: before, failing, after, congrArg (entry :: ·) split, ?_⟩
        simpa using ended
    · refine .inr ⟨error, later, edit_bind_of_error step, same, [], entry, rest, rfl, ?_⟩
      simpa using ⟨covers.renamable, fails⟩

/-! ### The whole jar -/

/-- The jar at the path `input` has these entries and all of them can be read, and any file can be written at the path
`output`. -/
structure Ready (files : Files) (input output : String) (entries : List Jar.Entry) : Prop where
  read : files.readJar input = .ok entries
  sound : ∀ entry ∈ entries, entry.damage = none
  temporary : checkTemporary files (Files.directoryOf output) = .ok ()
  writable : ∀ content, ∃ later, files.write output content = .ok later

variable {input output : String}

/-- A jar that is ready is written as a whole, or fails with its entries. -/
theorem rename_cases (renamer : Renamer) (ready : Ready world.files input output entries) :
    (∃ progress middle later, renameEntries renamer input entries world = .ok progress middle ∧
      rename renamer input output world = .ok progress.summary later ∧
      world.files.write output (.jar progress.entries.toList) = .ok later.files) ∨
    ∃ error later, renameEntries renamer input entries world = .error error later ∧
      rename renamer input output world = .error error later := by
  have files : Run.files world = .ok world.files world := rfl
  rw [rename, edit_bind_of_ok files, edit_bind_of_ok (Run.check_of_ok ready.read world),
    edit_bind_of_ok (Run.check_of_ok ready.temporary world)]
  cases run : renameEntries renamer input entries world with
  | error error later => exact .inr ⟨error, later, rfl, edit_bind_of_error run⟩
  | ok progress middle =>
    obtain ⟨written, wrote⟩ := ready.writable (.jar progress.entries.toList)
    rw [edit_bind_of_ok run]
    dsimp only
    rw [edit_bind_of_ok (Run.check_of_ok (mapError_eq_ok.mpr wrote) middle)]
    exact .inl ⟨progress, middle, _, rfl, rfl, wrote⟩

/-- **Renaming an archive is all or nothing.** It succeeds exactly if all classes are accepted and all names in the
output differ. The output then has what becomes of each entry, in order, and the summary tells their number and the
names that changed. Otherwise no file changes, and the error is that of the first entry that fails. -/
theorem rename_outcome (resolver : Resolver) (ready : Ready world.files input output entries) :
    ((∃ summary later, rename resolver.renamer input output world = .ok summary later) ↔
      Renamable resolver.renamer entries) ∧
    (∀ summary later, rename resolver.renamer input output world = .ok summary later →
      ∃ outputs, later.files.readJar output = .ok outputs ∧
        List.Forall₂ (Becomes resolver.renamer) entries outputs ∧
        summary.classes + summary.resources = entries.length ∧ summary.renamed = moves entries outputs) ∧
    ∀ error later, rename resolver.renamer input output world = .error error later →
      later.files = world.files ∧ ∃ before entry after, entries = before ++ entry :: after ∧
        Renamable resolver.renamer before ∧ Fails resolver.renamer before entry error := by
  have entriesRun := renameFrom_cases input (Covers.start resolver.renamer) ready.sound world
  rcases rename_cases resolver.renamer ready with
    ⟨progress, middle, later, run, done, wrote⟩ | ⟨error, later, run, failed⟩
  · rcases entriesRun with ⟨final, _, again, -, covers⟩ | ⟨_, _, again, -⟩
    · cases run.symm.trans again
      refine ⟨iff_of_true ⟨_, _, done⟩ covers.renamable, ?_, ?_⟩
      · intro summary final again
        cases done.symm.trans again
        exact ⟨_, Files.readJar_write wrote, covers.outputs, covers.counted, covers.moved⟩
      · intro error final failed
        cases done.symm.trans failed
    · cases run.symm.trans again
  · rcases entriesRun with ⟨_, _, again, -⟩ | ⟨_, _, again, same, before, entry, after, split, renamable, fails⟩
    · cases run.symm.trans again
    · cases run.symm.trans again
      refine ⟨iff_of_false ?_ ?_, ?_, ?_⟩
      · rintro ⟨summary, final, done⟩
        cases failed.symm.trans done
      · rw [split]
        exact fails.not_renamable
      · intro summary final done
        cases failed.symm.trans done
      · intro error final again
        cases failed.symm.trans again
        exact ⟨same, before, entry, after, split, renamable, fails⟩

/-- A jar that is ready and can be renamed is renamed. -/
theorem exists_rename (ready : Ready world.files input output entries) (renamable : Renamable renamer entries) :
    ∃ summary later, rename renamer input output world = .ok summary later := by
  rcases rename_cases renamer ready with ⟨progress, middle, later, -, done, -⟩ | ⟨error, later, run, -⟩
  · exact ⟨progress.summary, later, done⟩
  · rcases renameFrom_cases input (Covers.start renamer) ready.sound world with
      ⟨_, _, again, -⟩ | ⟨_, _, -, -, before, entry, after, split, -, fails⟩
    · cases run.symm.trans again
    · rw [split] at renamable
      exact absurd renamable fails.not_renamable

/-! ### A jar with a class, a directory and a text -/

/-- An entry of a name and contents. -/
def plainEntry (name : String) (data : Bytes) : Jar.Entry where
  name := name
  data := data
  method := .stored
  permissions := none
  time := {}
  damage := none

/-- The class `A` between a directory and a text. -/
def mixedJar : List Jar.Entry :=
  [plainEntry "META-INF/" [], plainEntry "lib/A.class" ClassFile.sampleBytes, plainEntry "A.txt" [0x41]]

/-- The jar in the working directory. -/
def mixedWorld : World where
  files := { nodes := [(["mixed.jar"], .file (.jar mixedJar))] }

/-- The class `A` is renamed to `B`. -/
def mixedEntries : List Mapping.Numbered :=
  [(1, .ofClass "A" "B")]

theorem ready_mixed : Ready mixedWorld.files "mixed.jar" "out.jar" mixedJar where
  read := by decide +kernel
  sound := by decide +kernel
  temporary := by decide +kernel
  writable := by
    have wrote : mixedWorld.files.write "out.jar" (.raw []) =
        .ok (mixedWorld.files.put ["out.jar"] (.file (.raw []))) := by decide +kernel
    exact Files.exists_write wrote

theorem exists_mixed : ∃ table, Table.ofEntries mixedEntries .forward = .ok table ∧
    (Resolver.mk table {}).renamer = ClassFile.sampleRenamer := by
  obtain ⟨table, done⟩ : ∃ table, Table.ofForward mixedEntries = .ok table :=
    Table.exists_ofForward_iff.mpr ⟨by simp [mixedEntries, Mapping.Entry.Readable], by decide +kernel⟩
  have classes (name : String) : table.class? name = if name = "A" then some "B" else none := by
    refine Option.ext fun new => (Table.holds_ofForward done (.ofClass name new)).trans ?_
    simp [mixedEntries, eq_comm]
  have fields (owner name : String) : table.field? owner name = none :=
    Table.get?_ofForward_eq_none done (.ofField owner name) (by simp [mixedEntries, Mapping.Entry.key])
  have methods (owner name descriptor : String) : table.method? owner name descriptor = none :=
    Table.get?_ofForward_eq_none done (.ofMethod owner name descriptor) (by simp [mixedEntries, Mapping.Entry.key])
  refine ⟨table, Table.ofEntries_forward.trans done, ?_⟩
  unfold Resolver.renamer ClassFile.sampleRenamer
  congr 1
  · funext name
    exact classes name
  · funext owner name descriptor declared
    simp [Resolver.mapField, Resolver.field?, Resolver.inherited?, fields]
  · funext owner name descriptor declared
    simp [Resolver.mapMethod, Resolver.method?, Resolver.inherited?, methods]

theorem renamable_mixed : Renamable ClassFile.sampleRenamer mixedJar where
  accepted := by
    have checked : ∀ entry ∈ mixedJar, accepts ClassFile.sampleRenamer entry = true := by decide +kernel
    exact fun entry member => accepted_of_accepts (checked entry member)
  distinct := by decide +kernel

/-- The class moves with its name, and everything else stays. -/
theorem rename_outcome_mixed : ∃ table summary later outputs, Table.ofEntries mixedEntries .forward = .ok table ∧
    rename (Resolver.mk table {}).renamer "mixed.jar" "out.jar" mixedWorld = .ok summary later ∧
    later.files.readJar "out.jar" = .ok outputs ∧
    outputs.map Jar.Entry.name = ["META-INF/", "lib/B.class", "A.txt"] ∧
    summary.classes + summary.resources = 3 ∧ summary.renamed = [("lib/A.class", "lib/B.class")] := by
  obtain ⟨table, built, answers⟩ := exists_mixed
  obtain ⟨succeeds, done, -⟩ := rename_outcome (Resolver.mk table {}) ready_mixed
  rw [answers] at succeeds
  obtain ⟨summary, later, ran⟩ := succeeds.mpr renamable_mixed
  rw [← answers] at ran
  obtain ⟨outputs, read, becomes, counted, moved⟩ := done summary later ran
  rw [answers] at becomes
  have names : outputs.map Jar.Entry.name = ["META-INF/", "lib/B.class", "A.txt"] := by
    rw [map_name_of_becomes becomes]
    decide +kernel
  refine ⟨table, summary, later, outputs, built, ran, read, names, counted, ?_⟩
  rw [moved, moves, names]
  decide +kernel

end Archive

end JarRename
