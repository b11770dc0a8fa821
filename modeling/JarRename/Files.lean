import JarRename.Jar.Container
import JarRename.Text.Blank

/-!
**Files.**

A tree of files by their paths. A path is walked part by part, from the top if it starts with a slash and from
the working directory if not: every part but the last must be a directory, an empty part or a dot stays where
it is, and two dots go back. Paths and their parts have a greatest length.

* `Files`: the tree;
* `Files.find`: what stands at a path;
* `Files.readText`, `Files.readBytes`, `Files.readJar`: the contents of a file;
* `Files.write`: the tree with a file written.
-/

namespace JarRename

/-- The contents of a file. A jar can be given by its entries. -/
inductive Content where
  | jar (entries : List Jar.Entry)
  | raw (bytes : Bytes)
  deriving DecidableEq

namespace Content

/-- The bytes of contents. -/
def bytes : Content → Bytes
  | jar entries => Jar.Container.toBytes entries
  | raw bytes => bytes

/-- The entries of contents that must be a jar. -/
def entries : Content → Except ArchiveCause (List Jar.Entry)
  | jar entries => .ok entries
  | raw bytes => Jar.Container.parse bytes.toArray

end Content

/-- What stands at a path. -/
inductive Node where
  | file (content : Content)
  | directory
  deriving DecidableEq

/-- A path from the top, part by part. -/
abbrev Path := List String

/-- A tree of files; the top is a directory. -/
structure Files where
  nodes : List (Path × Node) := []
  /-- The working directory. -/
  home : Path := []
  deriving DecidableEq

namespace Files

/-- The parts of a path. -/
def parts (path : String) : List String :=
  (Text.pieces (· == '/') path.toList).map String.ofList

/-- What stands at a path from the top. -/
def node? (files : Files) (path : Path) : Option Node :=
  if path.isEmpty then some .directory else files.nodes.lookup path

/-- Where a path starts. -/
def start (files : Files) (path : String) : Path :=
  if path.toList.head? == some '/' then [] else files.home

/-- The place that one part leads to from another place. -/
def step (place : Path) (part : String) : Path :=
  if part = "" || part = "." then place
  else if part = ".." then place.dropLast
  else place ++ [part]

/-- The place that a path leads to, whatever stands on the way. -/
def placeOf (files : Files) (path : String) : Path :=
  (parts path).foldl step (files.start path)

/-- The most bytes of a part of a path. -/
def maxPart : Nat := 255

/-- The most bytes of a path. -/
def maxPath : Nat := 4095

/-- The place that parts lead to, from a place on. The last part need not exist. -/
def walk (files : Files) (place : Path) : List String → Except IoCause Path
  | [] => .ok place
  | part :: rest =>
    match files.node? place with
    | none => .error .notFound
    | some (.file _) => .error .notDirectory
    | some .directory =>
      if maxPart < part.utf8ByteSize then .error .nameTooLong else walk files (step place part) rest

/-- Whether a path has a null character, which no name has. -/
def hasNull (path : String) : Bool :=
  path.toList.any fun c => c.toNat == 0

/-- Fails if no path looks like this one. -/
def checkPath (path : String) : Except IoCause Unit :=
  if path = "" then .error .notFound
  else if maxPath < path.utf8ByteSize then .error .nameTooLong
  else .ok ()

/-- The place that a path leads to. -/
def resolve (files : Files) (path : String) : Except IoCause Path := do
  if hasNull path then throw .nullInName
  else
    checkPath path
    files.walk (files.start path) (parts path)

/-- What stands at a path. -/
def find (files : Files) (path : String) : Except IoCause Node := do
  match files.node? (← files.resolve path) with
  | none => throw .notFound
  | some node => return node

/-- Whether a directory stands at a path. -/
def isDirectory (files : Files) (path : String) : Bool :=
  match files.find path with
  | .ok .directory => true
  | _ => false

/-- Whether anything stands at a path. -/
def isPresent (files : Files) (path : String) : Bool :=
  match files.find path with
  | .ok _ => true
  | .error _ => false

/-! ### Reading -/

/-- The contents of the file at a path. -/
def read (files : Files) (path : String) : Except IoCause Content := do
  match ← files.find path with
  | .file content => return content
  | .directory => throw .isDirectory

/-- The bytes of the file at a path. -/
def readBytes (files : Files) (path : String) : Except IoCause Bytes := do
  return (← files.read path).bytes

/-- The text of the file at a path. -/
def readText (files : Files) (path : String) : Except IoCause String := do
  match String.fromUTF8? ⟨(← files.readBytes path).toArray⟩ with
  | some text => return text
  | none => throw .notText

/-- The entries of the jar at a path. -/
def readJar (files : Files) (path : String) : Except Error (List Jar.Entry) :=
  match files.find path with
  | .error cause => .error (.io path cause)
  | .ok .directory => .error (.archive path (.io .isDirectory))
  | .ok (.file content) => content.entries.mapError (.archive path)

/-- The paths of the files below a place, from that place. -/
def below (files : Files) (place : Path) : List Path :=
  files.nodes.filterMap fun (path, node) =>
    match node with
    | .directory => none
    | .file _ => if place.isPrefixOf path then some (path.drop place.length) else none

/-! ### Writing -/

/-- The tree with something put at a place. -/
def put (files : Files) (place : Path) (node : Node) : Files :=
  { files with
    nodes :=
      if files.nodes.any (·.1 == place) then
        files.nodes.map fun (path, old) => if path == place then (path, node) else (path, old)
      else files.nodes ++ [(place, node)] }

/-- The tree with a directory at a place, where nothing stands yet. -/
def putDirectory (files : Files) (place : Path) : Files :=
  if (files.node? place).isSome then files else files.put place .directory

/-- The tree with a directory at a place, and with all directories on the way. -/
def makeDirectories (files : Files) (place : Path) : Files :=
  ((List.range (place.length + 1)).map fun length => place.take length).foldl putDirectory files

/-- The tree with something put at a place, and with all directories on the way. -/
def build (files : Files) (place : Path) (node : Node) : Files :=
  (files.makeDirectories place.dropLast).put place node

/-- The parts of a path before its last one, and the last one. Slashes at the end of a path belong to it. -/
def splitPath (path : String) : Path × String :=
  let whole := (parts path).reverse.dropWhile (· == "")
  (whole.tail.reverse, whole.headD "")

/-- Whether a part of a path is only a way from one place to another. -/
def isStep (part : String) : Bool :=
  part == "" || part == "." || part == ".."

/-- The tree with a file written at a path whose directory exists. A path with a slash at its end is that of
a directory, and a path that ends with a step cannot be replaced. -/
def write (files : Files) (path : String) (content : Content) : Except IoCause Files := do
  if hasNull path then throw .badArgument
  else
    checkPath path
    let (before, last) := splitPath path
    let directory ← files.walk (files.start path) (before ++ [""])
    let place ← if isStep last then throw .busy else files.walk directory [last]
    if path.toList.getLast? == some '/' then throw .notDirectory
    else
      match files.node? place with
      | some .directory => throw .isDirectory
      | _ => return files.put place (.file content)

/-- The parts of a path that tell places apart: none is empty, and only the first one may be a dot. -/
def components (path : String) : List String :=
  match parts path with
  | [] => []
  | first :: rest => [first].filter (· != "") ++ rest.filter fun part => part != "" && part != "."

/-- The directory of a path: all but its last part, or a dot if there is no other. -/
def directoryOf (path : String) : String :=
  let all := components path
  let before := String.intercalate "/" all.dropLast
  if path.toList.head? == some '/' then
    if all.isEmpty then "." else "/" ++ before
  else if before = "" then "." else before

/-- A path with another one behind it. -/
def join (path behind : String) : String :=
  if behind.toList.head? == some '/' then behind
  else if path = "" || path.toList.getLast? == some '/' then path ++ behind
  else path ++ "/" ++ behind

end Files

end JarRename
