import JarRename.Options

/-!
**The program.**

The program takes its options, runs their job and ends with an exit code. It logs the lines of the chosen
level and of those below it, and after them why it failed.

* `Program.report`: the lines that tell of a failure;
* `Program.run`: the outcome of the program on a tree of files.
-/

namespace JarRename.Program

/-- How the program ends. -/
structure Outcome where
  exit : Nat
  /-- The lines of the log. -/
  log : List String
  files : Files
  deriving DecidableEq

/-- A text after a mark, with its later lines as far from the margin as its first one. -/
def indented (mark text : String) : String :=
  let margin := '\n' :: List.replicate mark.length ' '
  mark ++ String.ofList (text.toList.flatMap fun c => if c = '\n' then margin else [c])

/-- The lines that tell of a failure: its message, and the causes behind it. Several causes are numbered. -/
def report (error : Error) : List String :=
  ("Error: " ++ error.message) ::
    match error.causes with
    | [] => []
    | [cause] => ["", "Caused by:", indented "    " cause]
    | causes => "" :: "Caused by:" ::
      causes.zipIdx.map fun (cause, number) => indented s!"    {number}: " cause

/-- The lines of a log at a level. -/
def shownLines (level : Level) (log : List LogLine) : List String :=
  (log.filter fun line => line.level.rank ≤ level.rank).map LogLine.toText

/-- Runs a job and logs what was done. -/
def runJob (job : Job) (orders : Job.Orders) : Run Unit := do
  let summary ← job.run orders
  Run.log .info s!"Done: {summary.entries} entries, {summary.renamed.length} classes moved"

/-- The exit code when arguments are not understood; help and version are no failures. -/
def usageExit : UsageError → Nat
  | .help | .version => 0
  | _ => 2

/-- The outcome of the program with options on a tree of files. -/
def runOptions (options : Options) (orders : Job.Orders) (files : Files) : Outcome :=
  match runJob options.job orders { files } with
  | .ok _ world =>
    { exit := 0, log := shownLines options.level world.log.toList, files := world.files }
  | .error error world =>
    { exit := 1, log := shownLines options.level world.log.toList ++ report error,
      files := world.files }

/-- The outcome of the program with arguments on a tree of files. -/
def run (arguments : List String) (orders : Job.Orders) (files : Files) : Outcome :=
  match Options.parse arguments with
  | .error error => { exit := usageExit error, log := [], files }
  | .ok options => runOptions options orders files

end JarRename.Program
