import JarRename.Archive

/-!
**Jobs and pipelines.**

A job renames one jar by one mapping, with the hierarchy of the jar itself and of the classpath. A pipeline
is a sequence of jobs, each of which renames what the one before it wrote. What comes of them may depend on the
orders in which the opened jars tell their names: of the classes with one name, the hierarchy has the one that is told
first.

* `Job`, `Job.run`: one jar renamed;
* `Stage`, `Pipeline`, `Pipeline.run`: several in a row.
-/

namespace JarRename

/-- What one jar is renamed with. -/
structure Job where
  input : String
  output : String
  mappings : String
  direction : Mapping.Direction := .forward
  /-- Jars and directories that only the hierarchy is read from. -/
  classpath : List String := []
  deriving DecidableEq

namespace Job

/-- Orders for the jars that a job opens: the input is the first of them, and those of the classpath follow. -/
abbrev Orders :=
  Nat → Jar.Order

/-- The table of the mapping at a path. -/
def loadTable (path : String) (direction : Mapping.Direction) : Run Table := do
  let files ← Run.files
  let text ← Run.check ((files.readText path).mapError (.io path))
  Run.log .debug s!"Detected {(Mapping.Format.detect text).name} mappings"
  let table ← Run.check ((Table.parse text direction).mapError .mapping)
  let { classes, fields, methods } := table
  Run.log .info
    s!"Loaded {path} ({direction.name}): {classes.size} classes, {fields.size} fields, {methods.size} methods"
  return table

/-- The directories and jars of a classpath. -/
def openClasspath (orders : Orders) (classpath : List String) : Run (List ClassSource) :=
  (classpath.zipIdx 1).mapM fun (path, number) => ClassSource.openEntry (orders number) path

/-- The hierarchy of a jar and a classpath. -/
def loadGraph (orders : Orders) (input : String) (classpath : List String) : Run Graph := do
  let jar ← ClassSource.openJar (orders 0) input
  let others ← openClasspath orders classpath
  Graph.build (jar :: others)

/-- Renames one jar. The mapping is read before anything else. -/
def run (job : Job) (orders : Orders) : Run Summary := do
  Run.log .info s!"Remapping {job.input} with {job.mappings} ({job.direction.name})"
  let table ← loadTable job.mappings job.direction
  let graph ← loadGraph orders job.input job.classpath
  Archive.rename { table, graph : Resolver }.renamer job.input job.output

end Job

/-- One step of a pipeline. -/
structure Stage where
  output : String
  mappings : String
  direction : Mapping.Direction := .forward
  classpath : List String := []
  deriving DecidableEq

/-- The job of a stage. -/
def Stage.job (stage : Stage) (input : String) : Job where
  input
  output := stage.output
  mappings := stage.mappings
  direction := stage.direction
  classpath := stage.classpath

/-- Jobs in a row. -/
structure Pipeline where
  input : String
  stages : List Stage
  deriving DecidableEq

namespace Pipeline

/-- Orders for the jars that numbered stages open. -/
abbrev Orders :=
  Nat → Job.Orders

/-- Runs numbered stages out of `count`, the first of them on `input`. -/
def runStages (orders : Orders) (count : Nat) : String → List (Stage × Nat) → Run (List Summary)
  | _, [] => return []
  | input, (stage, number) :: rest => do
    Run.log .info s!"Stage {number} of {count}"
    let summary ← (stage.job input).run (orders number)
    let summaries ← runStages orders count stage.output rest
    return summary :: summaries

/-- Runs all stages, each on the output of the one before it. -/
def run (pipeline : Pipeline) (orders : Orders) : Run (List Summary) :=
  runStages orders pipeline.stages.length pipeline.input (pipeline.stages.zipIdx 1)

end Pipeline

end JarRename
