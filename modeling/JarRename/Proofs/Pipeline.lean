import JarRename.Job
import JarRename.Proofs.Hierarchy.Stage
import JarRename.Proofs.Run
import Mathlib.Data.List.Induction

/-!
**Pipelines compose and stop cleanly.**

A job reads everything it needs before it writes its output, so a job that fails leaves the files as they were. A
pipeline is its jobs one after the other: it can be cut anywhere, it stops at the first job that fails, and what is no
class goes through all jobs unchanged. The orders in which opened jars tell their names are no part of the files, so
what a pipeline comes to is told for any orders, and each part of a pipeline that is cut has orders of its own.

* `Job.atomic_run`: one job;
* `Pipeline.output`, `Pipeline.Orders.after`, `Pipeline.Orders.join`: what the last stage writes, and the orders of
  stages that are cut off or joined;
* `Pipeline.agree_runStages`, `Pipeline.agree_cons`: the orders that count, and the first stage taken off;
* `Pipeline.agree_append`, `Pipeline.fails_iff`, `Pipeline.exists_outputs`: by induction over the stages, pipelines that
  are cut, that fail and that succeed;
* `Pipeline.run_composes`: all three.
-/

namespace JarRename

open Run

/-! ### What a job reads -/

namespace ClassSource

theorem reads_openJar (order : Jar.Order) (path : String) : Reads (openJar order path) :=
  .bind .files fun _ => .bind (.check _) fun _ => .bind (.log _ _) fun _ => .pure _

theorem reads_openDirectory (path : String) : Reads (openDirectory path) :=
  .bind .files fun _ => .bind (.check _) fun _ => .bind (.log _ _) fun _ => .pure _

/-- A failure to open is reported as that of an entry of the classpath, and nothing else changes. -/
theorem outcome_reported (path : String) (opening : Run ClassSource) (world : World) :
    outcome (reported path opening world) =
      ((outcome (opening world)).1.mapError (.classpath path), (outcome (opening world)).2) := by
  unfold reported
  cases opening world <;> rfl

theorem reads_reported (path : String) {opening : Run ClassSource} (reads : Reads opening) :
    Reads (reported path opening) := by
  refine ⟨fun world other same => ?_, fun world => ?_⟩
  · rw [outcome_reported, outcome_reported, reads.agree world other same]
  · rw [outcome_reported, reads.keeps world]

theorem reads_openEntry (order : Jar.Order) (path : String) : Reads (openEntry order path) := by
  refine .bind .files fun files => ?_
  by_cases directory : files.isDirectory path = true
  · rw [if_pos directory]
    exact reads_reported path (reads_openDirectory path)
  · rw [if_neg directory]
    exact reads_reported path (reads_openJar order path)

end ClassSource

theorem Graph.reads_build (sources : List ClassSource) : Reads (Graph.build sources) := by
  have reads (graph : Graph) (source : ClassSource) : Reads (graph.addLogged source) :=
    .bind (.check _) fun _ => .bind (.log _ _) fun _ => .pure _
  exact .bind (.foldlM reads {} sources) fun _ => .bind (.log _ _) fun _ => .pure _

namespace Job

theorem reads_loadTable (path : String) (direction : Mapping.Direction) : Reads (loadTable path direction) :=
  .bind .files fun _ => .bind (.check _) fun _ => .bind (.log _ _) fun _ =>
    .bind (.check _) fun _ => .bind (.log _ _) fun _ => .pure _

theorem reads_openClasspath (orders : Orders) (classpath : List String) : Reads (openClasspath orders classpath) := by
  refine .mapM (fun entry => ?_) _
  obtain ⟨path, number⟩ := entry
  exact ClassSource.reads_openEntry (orders number) path

theorem reads_loadGraph (orders : Orders) (input : String) (classpath : List String) :
    Reads (loadGraph orders input classpath) :=
  .bind (ClassSource.reads_openJar (orders 0) input) fun jar =>
    .bind (reads_openClasspath orders classpath) fun others => Graph.reads_build (jar :: others)

end Job

namespace Archive

theorem reads_renameEntry (renamer : Renamer) (path : String) (progress : Progress) (entry : Jar.Entry) :
    Reads (renameEntry renamer path progress entry) := by
  refine .bind (.check _) fun converted => .bind (.log _ _) fun _ => ?_
  by_cases claimed : progress.taken.contains converted.entry.name = true
  · rw [if_pos claimed]
    exact .fail _
  · rw [if_neg claimed]
    exact .pure _

/-- **Renaming a jar is all or nothing.** Nothing fails once the output is written. -/
theorem atomic_rename (renamer : Renamer) (input output : String) : Atomic (rename renamer input output) := by
  refine Reads.files.bind_atomic fun files => Reads.bind_atomic (.check _) fun entries =>
    Reads.bind_atomic (.check _) fun _ =>
      (Reads.foldlM (reads_renameEntry renamer input) {} entries).bind_atomic fun progress =>
        Reads.bind_atomic (.check _) fun written => ?_
  exact ⟨fun _ _ _ => rfl, nofun⟩

end Archive

/-- **A job is all or nothing.** -/
theorem Job.atomic_run (job : Job) (orders : Orders) : Atomic (job.run orders) :=
  (Reads.log _ _).bind_atomic fun _ => (reads_loadTable job.mappings job.direction).bind_atomic fun table =>
    (reads_loadGraph orders job.input job.classpath).bind_atomic fun graph =>
      Archive.atomic_rename (Resolver.mk table graph).renamer job.input job.output

/-! ### What a job writes -/

/-- An entry that is no class has its name and its contents in the output, as they are stored and as they are read. -/
def Jar.Entry.Kept (entry output : Jar.Entry) : Prop :=
  entry.isClass = false → output.name = entry.name ∧ output.data = entry.data ∧ output.contents = entry.contents

namespace Jar.Entry.Kept

theorem refl (entry : Jar.Entry) : entry.Kept entry :=
  fun _ => ⟨rfl, rfl, rfl⟩

theorem trans {entry middle output : Jar.Entry} (kept : entry.Kept middle) (next : middle.Kept output) :
    entry.Kept output := by
  intro other
  obtain ⟨name, data, contents⟩ := kept other
  -- whether an entry is a class can be told by its name
  have again : middle.isClass = false := by
    rw [← other, Entry.isClass, Entry.isClass, Entry.isDirectory, Entry.isDirectory, name]
  obtain ⟨nextName, nextData, nextContents⟩ := next again
  exact ⟨nextName.trans name, nextData.trans data, nextContents.trans contents⟩

theorem forall₂_trans {entries middle outputs : List Jar.Entry} (kept : List.Forall₂ Kept entries middle)
    (next : List.Forall₂ Kept middle outputs) : List.Forall₂ Kept entries outputs := by
  induction kept generalizing outputs with
  | nil => exact next
  | cons here _ ih =>
    cases next with
    | cons again rest => exact .cons (here.trans again) (ih rest)

end Jar.Entry.Kept

/-- An entry that is no class is copied. -/
theorem Archive.kept_of_converts {renamer : Renamer} {path : String} {entry output : Jar.Entry}
    (converts : Converts renamer path entry output) : entry.Kept output := by
  intro other
  obtain ⟨converted, done, rfl⟩ := converts
  obtain ⟨⟨⟩, -, done⟩ := bind_eq_ok.mp done
  rw [entry.copies_eq, other] at done
  cases done
  exact ⟨rfl, rfl, rfl⟩

/-- **A job that succeeds** has read its input, and wrote as many entries, with all that are no classes kept. -/
theorem Job.exists_outputs {job : Job} {orders : Orders} {world later : World} {summary : Summary}
    (done : job.run orders world = .ok summary later) :
    ∃ entries outputs, world.files.readJar job.input = .ok entries ∧ later.files.readJar job.output = .ok outputs ∧
      List.Forall₂ Jar.Entry.Kept entries outputs := by
  obtain ⟨⟨⟩, logged, wrote, done⟩ := edit_bind_eq_ok.mp done
  obtain ⟨table, loaded, read, done⟩ := edit_bind_eq_ok.mp done
  obtain ⟨graph, built, build, done⟩ := edit_bind_eq_ok.mp done
  have files : built.files = world.files := by
    rw [(reads_loadGraph orders job.input job.classpath).files_of_ok build,
      (reads_loadTable job.mappings job.direction).files_of_ok read, (Reads.log _ _).files_of_ok wrote]
  obtain ⟨entries, opened⟩ : ∃ entries, built.files.readJar job.input = .ok entries := by
    obtain ⟨found, middle, same, rest⟩ := edit_bind_eq_ok.mp done
    cases same
    obtain ⟨entries, between, checked, -⟩ := edit_bind_eq_ok.mp rest
    exact ⟨entries, (Run.check_eq_ok.mp checked).1⟩
  obtain ⟨outputs, written, converts, -⟩ := Archive.outputs_of_rename opened done
  exact ⟨entries, outputs, files ▸ opened, written, converts.imp fun _ _ => Archive.kept_of_converts⟩

/-! ### Pipelines -/

namespace Pipeline

/-- The path that the last stage writes, or the input if there is no stage. -/
def output (pipeline : Pipeline) : String :=
  (pipeline.stages.getLast?.map Stage.output).getD pipeline.input

theorem output_cons (input : String) (stage : Stage) (stages : List Stage) :
    output ⟨input, stage :: stages⟩ = output ⟨stage.output, stages⟩ := by
  rw [output, output, List.getLast?_cons, Option.map_some, Option.getD_some]
  cases stages.getLast? <;> rfl

/-- The orders of the stages behind the first `count`. -/
def Orders.after (orders : Orders) (count : Nat) : Orders :=
  fun number => orders (count + number)

/-- The orders of the first `count` stages, and others for those behind them. -/
def Orders.join (count : Nat) (first second : Orders) : Orders :=
  fun number => if number ≤ count then first number else second (number - count)

/-- **Only the orders of the stages that run count**, and neither the numbers of the stages nor how many there are. -/
theorem agree_runStages (orders others : Orders) (count other : Nat) (input : String) (stages : List Stage)
    (start begin : Nat) (same : ∀ place < stages.length, orders (start + place) = others (begin + place)) :
    Agree (runStages orders count input (stages.zipIdx start))
      (runStages others other input (stages.zipIdx begin)) := by
  induction stages generalizing input start begin with
  | nil => exact .pure []
  | cons stage rest ih =>
    have here : orders start = others begin := same 0 (Nat.succ_pos _)
    have later (place : Nat) (within : place < rest.length) :
        orders (start + 1 + place) = others (begin + 1 + place) := by
      rw [Nat.add_right_comm start, Nat.add_right_comm begin]
      exact same (place + 1) (Nat.succ_lt_succ within)
    have first : Agree ((stage.job input).run (orders start)) ((stage.job input).run (others begin)) := by
      rw [here]
      exact ((stage.job input).atomic_run _).agree
    refine .log_bind (.symm (.log_bind (.symm ?_) _ _)) _ _
    exact first.bind fun summary =>
      (ih stage.output (start + 1) (begin + 1) later).bind fun summaries => .pure (summary :: summaries)

/-- Pipelines agree if the orders of their stages do. -/
theorem agree_run {pipeline : Pipeline} {orders others : Orders}
    (same : ∀ number, 0 < number → number ≤ pipeline.stages.length → orders number = others number) :
    Agree (pipeline.run orders) (pipeline.run others) := by
  refine agree_runStages _ _ _ _ _ _ _ _ fun place within => same _ ?_ ?_ <;> omega

/-- **The first stage taken off.** -/
theorem agree_cons (input : String) (stage : Stage) (stages : List Stage) (orders : Orders) :
    Agree (run ⟨input, stage :: stages⟩ orders) (do
      let summary ← (stage.job input).run (orders 1)
      let summaries ← run ⟨stage.output, stages⟩ (orders.after 1)
      return summary :: summaries) := by
  refine .log_bind ?_ _ _
  have rest := agree_runStages orders (orders.after 1) (stages.length + 1) stages.length stage.output stages 2 1
    fun place _ => congrArg orders (by omega)
  exact ((stage.job input).atomic_run (orders 1)).agree.bind fun summary =>
    rest.bind fun summaries => .pure (summary :: summaries)

/-- **A pipeline can be cut anywhere.** -/
theorem agree_append (input : String) (before after : List Stage) (orders : Orders) :
    Agree (run ⟨input, before ++ after⟩ orders) (do
      let first ← run ⟨input, before⟩ orders
      let second ← run ⟨output ⟨input, before⟩, after⟩ (orders.after before.length)
      return first ++ second) := by
  induction before generalizing input orders with
  | nil =>
    have nothing : run ⟨input, []⟩ orders = pure [] := rfl
    simp only [nothing, pure_bind, List.nil_append, bind_pure]
    exact agree_run fun number _ _ => congrArg orders (Nat.zero_add number).symm
  | cons stage before ih =>
    have shifted : (orders.after 1).after before.length = orders.after (stage :: before).length := by
      funext number
      exact congrArg orders (by rw [List.length_cons]; omega)
    have rest (summary : Summary) : Agree (do
        let summaries ← run ⟨stage.output, before ++ after⟩ (orders.after 1)
        return summary :: summaries) (do
        let first ← run ⟨stage.output, before⟩ (orders.after 1)
        let second ← run ⟨output ⟨stage.output, before⟩, after⟩ (orders.after (stage :: before).length)
        return summary :: (first ++ second)) := by
      have cut := (ih stage.output (orders.after 1)).bind fun summaries => .pure (summary :: summaries)
      simpa only [shifted, bind_assoc, pure_bind] using cut
    -- the first stage is taken off on both sides
    refine (agree_cons input stage (before ++ after) orders).trans (.trans ?_
      ((agree_cons input stage before orders).symm.bind fun first =>
        (agree_run fun _ _ _ => rfl).bind fun second => .pure (first ++ second)))
    simp only [bind_assoc, pure_bind, List.cons_append, output_cons]
    exact ((stage.job input).atomic_run (orders 1)).agree.bind rest

/-- **The parts of a pipeline may have any orders of their own**: joined, these are orders of the whole. -/
theorem agree_join (input : String) (before after : List Stage) (first second : Orders) :
    Agree (run ⟨input, before ++ after⟩ (Orders.join before.length first second)) (do
      let done ← run ⟨input, before⟩ first
      let rest ← run ⟨output ⟨input, before⟩, after⟩ second
      return done ++ rest) := by
  have early : Agree (run ⟨input, before⟩ (Orders.join before.length first second)) (run ⟨input, before⟩ first) :=
    agree_run fun number _ within => if_pos within
  have late : Agree (run ⟨output ⟨input, before⟩, after⟩ ((Orders.join before.length first second).after before.length))
      (run ⟨output ⟨input, before⟩, after⟩ second) := by
    refine agree_run fun number positive _ => ?_
    have behind : ¬before.length + number ≤ before.length := by omega
    unfold Orders.after Orders.join
    rw [if_neg behind, Nat.add_sub_cancel_left]
  exact (agree_append input before after _).trans (early.bind fun done => late.bind fun rest => .pure (done ++ rest))

/-- **A pipeline fails** exactly if one of its stages does, and leaves the files of the stages before that one. -/
theorem fails_iff {input : String} {stages : List Stage} {orders : Orders} {world : World} {error : Error}
    {files : Files} :
    outcome (run ⟨input, stages⟩ orders world) = (.error error, files) ↔
      ∃ before stage after summaries, stages = before ++ stage :: after ∧
        outcome (run ⟨input, before⟩ orders world) = (.ok summaries, files) ∧
        outcome ((stage.job (output ⟨input, before⟩)).run (orders (before.length + 1)) { files }) =
          (.error error, files) := by
  constructor
  · intro failed
    induction stages using List.reverseRecOn with
    | nil => cases failed
    | append_singleton stages last ih =>
      rw [agree_append input stages [last] orders world world rfl, outcome_bind_eq_error] at failed
      rcases failed with stopped | ⟨summaries, middle, done, failed⟩
      · obtain ⟨before, stage, after, summaries, rfl, came, stopped⟩ := ih stopped
        exact ⟨before, stage, after ++ [last], summaries, by simp, came, stopped⟩
      · rcases outcome_bind_eq_error.mp failed with stopped | ⟨_, _, -, ⟨⟩⟩
        rw [agree_cons (output ⟨input, stages⟩) last [] _ middle middle rfl, outcome_bind_eq_error] at stopped
        rcases stopped with stopped | ⟨_, _, -, ⟨⟩⟩
        have atomic := (last.job (output ⟨input, stages⟩)).atomic_run (orders (stages.length + 1))
        obtain rfl := atomic.keeps middle error files stopped
        refine ⟨stages, last, [], summaries, rfl, congrArg outcome done, ?_⟩
        rw [← stopped]
        exact atomic.agree _ _ rfl
  · rintro ⟨before, stage, after, summaries, rfl, came, stopped⟩
    obtain ⟨middle, done, rfl⟩ := exists_of_outcome_ok came
    rw [agree_append input before (stage :: after) orders world world rfl, edit_bind_of_ok done]
    refine outcome_bind_eq_error.mpr (.inl ?_)
    rw [agree_cons _ stage after _ middle { files := middle.files } rfl]
    exact outcome_bind_eq_error.mpr (.inl stopped)

/-- A pipeline with a stage that succeeds has read its input. -/
theorem exists_entries {input : String} {stages : List Stage} {orders : Orders} {world : World}
    {summaries : List Summary} {files : Files} (filled : stages ≠ [])
    (came : outcome (run ⟨input, stages⟩ orders world) = (.ok summaries, files)) :
    ∃ entries, world.files.readJar input = .ok entries := by
  obtain ⟨stage, stages, rfl⟩ := List.exists_cons_of_ne_nil filled
  rw [agree_cons input stage stages orders world world rfl] at came
  obtain ⟨later, done, -⟩ := exists_of_outcome_ok came
  obtain ⟨summary, middle, ran, -⟩ := edit_bind_eq_ok.mp done
  obtain ⟨entries, outputs, read, -⟩ := Job.exists_outputs ran
  exact ⟨entries, read⟩

/-- **A pipeline that succeeds** passes on all entries that are no classes. -/
theorem exists_outputs {input : String} {stages : List Stage} {orders : Orders} {world : World}
    {summaries : List Summary} {files : Files} {entries : List Jar.Entry}
    (read : world.files.readJar input = .ok entries)
    (came : outcome (run ⟨input, stages⟩ orders world) = (.ok summaries, files)) :
    ∃ outputs, files.readJar (output ⟨input, stages⟩) = .ok outputs ∧ List.Forall₂ Jar.Entry.Kept entries outputs := by
  induction stages generalizing input orders world summaries entries with
  | nil =>
    cases came
    exact ⟨entries, read, List.forall₂_same.mpr fun entry _ => .refl entry⟩
  | cons stage stages ih =>
    rw [agree_cons input stage stages orders world world rfl] at came
    obtain ⟨later, done, rfl⟩ := exists_of_outcome_ok came
    obtain ⟨summary, middle, ran, done⟩ := edit_bind_eq_ok.mp done
    obtain ⟨others, final, rest, last⟩ := edit_bind_eq_ok.mp done
    obtain ⟨rfl, rfl⟩ := edit_pure_eq_ok.mp last
    obtain ⟨found, outputs, opened, written, kept⟩ := Job.exists_outputs ran
    cases read.symm.trans opened
    obtain ⟨results, here, keptRest⟩ := ih written (congrArg outcome rest)
    rw [output_cons]
    exact ⟨results, here, Jar.Entry.Kept.forall₂_trans kept keptRest⟩

/-- **Pipelines compose and stop cleanly**, in whatever orders the opened jars tell their names. A pipeline that is cut
comes to the same as its parts, one after the other, in the orders of the whole, and what the whole can come to is what
the parts can come to in orders of their own. It fails with the first stage that fails, and leaves the files of the
stages before that one. If all stages succeed, the last output has as many entries as the first input, and those that
are no classes are as they were. -/
theorem run_composes (input : String) (world : World) :
    (∀ before after orders, outcome (run ⟨input, before ++ after⟩ orders world) = outcome ((do
      let first ← run ⟨input, before⟩ orders
      let second ← run ⟨output ⟨input, before⟩, after⟩ (orders.after before.length)
      return first ++ second) world)) ∧
    (∀ before after result, (∃ orders, outcome (run ⟨input, before ++ after⟩ orders world) = result) ↔
      ∃ early late, outcome ((do
        let first ← run ⟨input, before⟩ early
        let second ← run ⟨output ⟨input, before⟩, after⟩ late
        return first ++ second) world) = result) ∧
    (∀ stages orders error files, outcome (run ⟨input, stages⟩ orders world) = (.error error, files) ↔
      ∃ before stage after summaries, stages = before ++ stage :: after ∧
        outcome (run ⟨input, before⟩ orders world) = (.ok summaries, files) ∧
        outcome ((stage.job (output ⟨input, before⟩)).run (orders (before.length + 1)) { files }) =
          (.error error, files)) ∧
    ∀ stages orders summaries files, stages ≠ [] →
      outcome (run ⟨input, stages⟩ orders world) = (.ok summaries, files) →
      ∃ entries outputs, world.files.readJar input = .ok entries ∧
        files.readJar (output ⟨input, stages⟩) = .ok outputs ∧ outputs.length = entries.length ∧
        List.Forall₂ Jar.Entry.Kept entries outputs := by
  have cut (before after : List Stage) (orders : Orders) := agree_append input before after orders world world rfl
  refine ⟨cut, fun before after result => ?_, fun _ _ _ _ => fails_iff, ?_⟩
  · constructor
    · rintro ⟨orders, came⟩
      exact ⟨orders, orders.after before.length, (cut before after orders).symm.trans came⟩
    · rintro ⟨early, late, came⟩
      exact ⟨.join before.length early late, (agree_join input before after early late world world rfl).trans came⟩
  · intro stages orders summaries files filled came
    obtain ⟨entries, read⟩ := exists_entries filled came
    obtain ⟨outputs, written, kept⟩ := exists_outputs read came
    exact ⟨entries, outputs, read, written, kept.length_eq.symm, kept⟩

/-! ### A stage that succeeds before one that fails -/

/-- The jar with a class, a directory and a text, and a mapping that renames the class. -/
def mappedWorld : World where
  files.nodes := [(["mixed.jar"], .file (.jar Archive.mixedJar)),
    (["names.txt"], .file (.raw [0x41, 0x20, 0x42, 0x0A]))]

/-- A stage that renames by the mapping. -/
def mappedStage : Stage where
  output := "out.jar"
  mappings := "names.txt"

/-- A stage whose mapping has no path. -/
def lostStage : Stage where
  output := "last.jar"
  mappings := ""

theorem ready_mapped : Archive.Ready mappedWorld.files "mixed.jar" "out.jar" Archive.mixedJar where
  read := by decide +kernel
  sound := by decide +kernel
  temporary := by decide +kernel
  writable := by
    have wrote : mappedWorld.files.write "out.jar" (.raw []) =
        .ok (mappedWorld.files.put ["out.jar"] (.file (.raw []))) := by decide +kernel
    exact Files.exists_write wrote

/-- The mapping has no members, so the hierarchy makes no difference. -/
theorem renamer_mapped {table : Table} (answers : (Resolver.mk table {}).renamer = ClassFile.sampleRenamer)
    (graph : Graph) : (Resolver.mk table graph).renamer = ClassFile.sampleRenamer := by
  -- a private static member gets the name that the table itself has for it
  have fields (owner name : String) : table.field? owner name = none :=
    congrFun (congrFun (congrFun (congrFun (congrArg Renamer.mapField answers) owner) name) "") (some 0x000A)
  have methods (owner name descriptor : String) (plain : ¬Resolver.isInitialiser name = true) :
      table.method? owner name descriptor = none := by
    have same : (Resolver.mk table {}).mapMethod owner name descriptor (some 0x000A) = none :=
      congrFun (congrFun (congrFun (congrFun (congrArg Renamer.mapMethod answers) owner) name) descriptor) _
    rw [Resolver.mapMethod, if_neg plain] at same
    exact same
  unfold Resolver.renamer ClassFile.sampleRenamer
  congr 1
  · exact congrArg Renamer.mapClass answers
  · funext owner name descriptor declared
    simp [Resolver.mapField, Resolver.field?, Resolver.inherited?, fields]
  · funext owner name descriptor declared
    by_cases plain : Resolver.isInitialiser name = true
    · rw [Resolver.mapMethod, if_pos plain]
    · simp [Resolver.mapMethod, Resolver.method?, Resolver.inherited?, methods _ name _ plain]

theorem exists_loadTable_mapped : ∃ table, (∀ graph, (Resolver.mk table graph).renamer = ClassFile.sampleRenamer) ∧
    ∀ world, world.files = mappedWorld.files →
      ∃ later, Job.loadTable "names.txt" .forward world = .ok table later := by
  obtain ⟨table, built, answers⟩ := Archive.exists_mixed
  have parsed : Table.parse "A B\n" .forward = .ok table := by
    have entries : Mapping.parseAs (Mapping.Format.detect "A B\n") "A B\n" = .ok Archive.mixedEntries := by
      decide +kernel
    rw [Table.parse, entries, ok_bind, built]
  refine ⟨table, renamer_mapped answers, fun world same => ?_⟩
  have text : world.files.readText "names.txt" = .ok "A B\n" := by
    rw [same]
    decide +kernel
  exact ⟨_, edit_bind_eq_ok.mpr ⟨_, _, rfl, edit_bind_eq_ok.mpr ⟨_, _, check_of_ok (mapError_eq_ok.mpr text) _,
    edit_bind_eq_ok.mpr ⟨_, _, rfl, edit_bind_eq_ok.mpr
      ⟨_, _, check_of_ok (mapError_eq_ok.mpr parsed) _, rfl⟩⟩⟩⟩⟩

theorem exists_loadGraph_mapped (orders : Job.Orders) {world : World} (same : world.files = mappedWorld.files) :
    ∃ graph later, Job.loadGraph orders "mixed.jar" [] world = .ok graph later := by
  have names : (ClassSource.jar "mixed.jar" Archive.mixedJar .first).names = ["lib/A"] := by decide +kernel
  have found : Jar.find? Archive.mixedJar (Jar.rootPath "lib/A") =
      some (Archive.plainEntry "lib/A.class" ClassFile.sampleBytes) := by decide +kernel
  have parsed : Header.parse ClassFile.sampleBytes = .ok Archive.sampleHeader := by decide +kernel
  have readable (name : String) (listed : name ∈ (ClassSource.jar "mixed.jar" Archive.mixedJar (orders 0)).names) :
      ∃ header, (ClassSource.jar "mixed.jar" Archive.mixedJar (orders 0)).header? name = .ok (some header) := by
    rw [ClassSource.mem_names_reordered .first, names, List.mem_singleton] at listed
    subst listed
    exact ⟨_, (ClassSource.header?_jar found).mpr ⟨ClassFile.sampleBytes, rfl, parsed⟩⟩
  have read : world.files.readJar "mixed.jar" = .ok Archive.mixedJar := same ▸ ready_mapped.read
  obtain ⟨opened, done⟩ : ∃ opened, ClassSource.openJar (orders 0) "mixed.jar" world =
      .ok (.jar "mixed.jar" Archive.mixedJar (orders 0)) opened :=
    ⟨_, edit_bind_eq_ok.mpr ⟨_, _, rfl, edit_bind_eq_ok.mpr ⟨_, _, check_of_ok read _, rfl⟩⟩⟩
  obtain ⟨graph, later, built⟩ := Graph.exists_build opened readable
  exact ⟨graph, later, edit_bind_eq_ok.mpr ⟨_, _, done, built⟩⟩

/-- The first stage is done. -/
theorem exists_run_mapped (orders : Job.Orders) :
    ∃ summary later, (mappedStage.job "mixed.jar").run orders mappedWorld = .ok summary later := by
  -- the job goes on from a world with one line more in its log
  suffices rest : ∀ logged : World, logged.files = mappedWorld.files → ∃ summary later, (do
      let table ← Job.loadTable "names.txt" .forward
      let graph ← Job.loadGraph orders "mixed.jar" []
      Archive.rename (Resolver.mk table graph).renamer "mixed.jar" "out.jar") logged = .ok summary later from rest _ rfl
  intro logged start
  obtain ⟨table, answers, loads⟩ := exists_loadTable_mapped
  obtain ⟨loaded, read⟩ := loads logged start
  have files : loaded.files = mappedWorld.files := ((Job.reads_loadTable _ _).files_of_ok read).trans start
  obtain ⟨graph, built, build⟩ := exists_loadGraph_mapped orders files
  have again : built.files = mappedWorld.files := ((Job.reads_loadGraph _ _ _).files_of_ok build).trans files
  obtain ⟨summary, later, done⟩ := Archive.exists_rename (again ▸ ready_mapped) Archive.renamable_mixed
  rw [← answers graph] at done
  exact ⟨summary, later, edit_bind_eq_ok.mpr ⟨_, _, read, edit_bind_eq_ok.mpr ⟨_, _, build, done⟩⟩⟩

/-- The first stage is done and stays done when the second one fails. -/
theorem run_composes_stopped : ∃ orders summaries files outputs,
    outcome (run ⟨"mixed.jar", [mappedStage]⟩ orders mappedWorld) = (.ok summaries, files) ∧
    outcome (run ⟨"mixed.jar", [mappedStage, lostStage]⟩ orders mappedWorld) = (.error (.io "" .notFound), files) ∧
    files.readJar "out.jar" = .ok outputs ∧ outputs.length = 3 ∧
    (outputs[2]?.map fun entry => (entry.name, entry.data)) = some ("A.txt", [0x41]) := by
  obtain ⟨-, -, fails, succeeds⟩ := run_composes "mixed.jar" mappedWorld
  let orders : Orders := fun _ _ => .first
  obtain ⟨summary, later, done⟩ := exists_run_mapped (orders 1)
  have came : outcome (run ⟨"mixed.jar", [mappedStage]⟩ orders mappedWorld) = (.ok [summary], later.files) := by
    rw [agree_cons "mixed.jar" mappedStage [] orders mappedWorld mappedWorld rfl, edit_bind_of_ok done]
    rfl
  obtain ⟨entries, outputs, read, written, length, kept⟩ := succeeds _ _ _ _ (List.cons_ne_nil _ _) came
  cases ready_mapped.read.symm.trans read
  refine ⟨orders, [summary], later.files, outputs, came, ?_, written, length, ?_⟩
  · exact (fails _ _ _ _).mpr ⟨[mappedStage], lostStage, [], [summary], rfl, came, rfl⟩
  · obtain _ | ⟨-, _ | ⟨-, _ | ⟨text, -⟩⟩⟩ := kept
    obtain ⟨name, data, -⟩ := text (by decide +kernel)
    exact congrArg some (Prod.ext name data)

end Pipeline

end JarRename
