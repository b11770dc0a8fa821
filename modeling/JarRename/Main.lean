import JarRename.Program

/-!
**The command line.**

The outer layer of the program. It brings the files that the options name into a tree of files, runs the
program on the tree, prints the log and stores the jar that was written.

* `CommandLine.loadAll`, `CommandLine.save`: between the tree and the system;
* `main`: the program.
-/

namespace JarRename.CommandLine

/-- The name and the version of the program. -/
def title : String := "jar-rename 0.1.0"

/-- The help. -/
def help : String :=
  title ++ "\n\n" ++
    "Usage: jar-rename [OPTIONS] --input <INPUT> --output <OUTPUT> --mappings <MAPPINGS>\n\n" ++
    "Options:\n" ++
    "  -i, --input <INPUT>        The jar to rename\n" ++
    "  -o, --output <OUTPUT>      Where to write the renamed jar\n" ++
    "  -m, --mappings <MAPPINGS>  The mapping (SRG, CSRG, TSRG or ProGuard)\n" ++
    "      --reverse              Go from new names back to old ones\n" ++
    "      --cp <CLASSPATH>       Jars or directories that supply the hierarchy\n" ++
    "  -v, --verbose...           Log more\n" ++
    "  -q, --quiet                Only log errors\n" ++
    "  -h, --help                 Print help\n" ++
    "  -V, --version              Print version"

/-- What is printed when arguments are not understood. -/
def complaint : UsageError → String
  | .missingRequired => "error: a required option is missing"
  | .unknownArgument => "error: an argument is unknown"
  | .conflict => "error: options exclude each other or are given twice"
  | .invalidValue => "error: a value is missing or empty"
  | .tooManyValues => "error: an option takes no value"
  | .help => help
  | .version => title

/-! ### Loading -/

/-- The path of a place from the top. -/
def pathOf (place : Path) : String :=
  "/" ++ String.intercalate "/" place

/-- A place as an entry of the directory around it. -/
def entryAt (place : Path) : IO.FS.DirEntry where
  root := pathOf place.dropLast
  fileName := place.getLast?.getD "."

/-- The file at a place. -/
def loadFile (files : Files) (place : Path) : IO Files := do
  let data ← IO.FS.readBinFile (entryAt place).path
  return files.build place (.file (.raw data.toList))

/-- What stands at a place: a directory without what is in it, or a file. -/
def loadOne (files : Files) (place : Path) : IO Files := do
  if ← (entryAt place).path.isDir then return files.makeDirectories place
  else if ← (entryAt place).path.pathExists then loadFile files place
  else return files

/-- What stands at a place, with everything in it. -/
partial def loadTree (files : Files) (place : Path) : IO Files := do
  let files ← loadOne files place
  if ← (entryAt place).path.isDir then
    let inside ← (entryAt place).path.readDir
    inside.foldlM (fun files entry => loadTree files (place ++ [entry.fileName])) files
  else return files

/-- What stands on the way to a path. -/
def loadWay (files : Files) (path : String) : IO Files := do
  let place := files.placeOf path
  let way := (List.range place.length).drop 1
  way.foldlM (fun files length => loadOne files (place.take length)) files

/-- What stands at a path and on the way to it. -/
def loadPath (files : Files) (path : String) : IO Files := do
  let files ← loadWay files path
  loadOne files (files.placeOf path)

/-- What stands at an entry of the classpath, with everything in it. -/
def loadEntry (files : Files) (path : String) : IO Files := do
  let files ← loadWay files path
  loadTree files (files.placeOf path)

/-- The files that a job names. -/
def loadAll (job : Job) : IO Files := do
  let working := toString (← IO.currentDir)
  let home := ({} : Files).placeOf working
  let files := Files.makeDirectories { home } home
  let files ← loadPath files job.input
  let files ← loadPath files job.mappings
  let files ← job.classpath.foldlM loadEntry files
  loadPath files job.output

/-! ### Saving -/

/-- Stores the file at a path of a tree. It is written under another name first, so that it comes whole. -/
def save (files : Files) (path : String) : IO Unit :=
  match files.readBytes path with
  | .error _ => return ()
  | .ok bytes => do
    let unfinished := path ++ ".part"
    IO.FS.writeBinFile unfinished ⟨bytes.toArray⟩
    IO.FS.rename unfinished path

/-- Runs the program with options. -/
def run (options : Options) : IO UInt32 := do
  let files ← loadAll options.job
  let outcome := Program.runOptions options (fun _ => .first) files
  outcome.log.forM fun line => IO.eprintln line
  if outcome.exit = 0 then save outcome.files options.job.output
  return UInt32.ofNat outcome.exit

end JarRename.CommandLine

/-- Runs the program with the arguments of the command line. -/
def main (arguments : List String) : IO UInt32 := do
  match JarRename.Options.parse arguments with
  | .ok options => JarRename.CommandLine.run options
  | .error error =>
    let text := JarRename.CommandLine.complaint error
    if JarRename.Program.usageExit error = 0 then IO.println text else IO.eprintln text
    return UInt32.ofNat (JarRename.Program.usageExit error)
