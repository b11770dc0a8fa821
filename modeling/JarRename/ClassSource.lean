import JarRename.ClassFile.Reader
import JarRename.Hierarchy.Graph
import JarRename.Jar.Name
import JarRename.Run

/-!
**Sources of classes.**

The hierarchy is built from the classes of several sources: classes in memory, jars, and directories laid
out by package. Where two sources have a class of one name, the first source counts.

* `Memory`: classes in memory, by the names in their headers;
* `ClassSource`: the sources, with their names (`names`) and classes (`classBytes?`);
* `Graph.build`: the hierarchy of the classes of sources.
-/

namespace JarRename

/-! ### Classes in memory -/

/-- Classes by name, and their names in order of their first insertion. -/
structure Memory where
  classes : Std.HashMap String Bytes := {}
  order : Array String := #[]

namespace Memory

/-- The classes with one class more, or with other bytes for a class they have. -/
def put (memory : Memory) (name : String) (bytes : Bytes) : Memory where
  classes := memory.classes.insert name bytes
  order := if memory.classes.contains name then memory.order else memory.order.push name

/-- A change of the classes in memory. -/
abbrev Edit :=
  EStateM Fault Memory

/-- Takes a class under the name in its header, which is returned. -/
def insert (bytes : Bytes) : Edit String := fun memory =>
  match Header.parse bytes with
  | .ok header => .ok header.name (memory.put header.name bytes)
  | .error cause => .error cause memory

end Memory

/-! ### Sources -/

/-- A source of classes. -/
inductive ClassSource where
  | memory (classes : Memory)
  | jar (path : String) (entries : List Jar.Entry) (order : Jar.Order)
  | directory (path : String) (files : Files)

namespace ClassSource

/-- What a source is called in messages. -/
def describe : ClassSource → String
  | memory _ => "<memory>"
  | jar path _ _ | directory path _ => path

/-- A path of a class in text. -/
def textOf (path : Path) : String :=
  String.intercalate "/" path

/-- The classes that stand below a directory, sorted. -/
def namesBelow (files : Files) (path : String) : List String :=
  match files.resolve path with
  | .error _ => []
  | .ok place =>
    ((files.below place).filterMap fun path => Jar.className? (textOf path)).mergeSort
      fun first second => !(second < first)

/-- The names of the classes of a source. -/
def names : ClassSource → List String
  | memory classes => classes.order.toList
  | jar _ entries order => (Jar.names order entries).filterMap Jar.className?
  | directory path files => namesBelow files path

/-- The bytes of a class of a source, if it has the class. -/
def classBytes? (source : ClassSource) (name : String) : Except Error (Option Bytes) :=
  match source with
  | memory classes => .ok classes.classes[name]?
  | jar path entries _ =>
    match Jar.find? entries (name ++ ".class") with
    | none => .ok none
    | some entry => do return some (← entry.readFrom path)
  | directory path files =>
    let path := Files.join path (name ++ ".class")
    if files.isPresent path then do
      return some (← (files.readBytes path).mapError (.io path))
    else .ok none

/-! ### Opening -/

/-- The line logged for an opened source. -/
def logOpened (path : String) (source : ClassSource) : Run Unit :=
  Run.log .debug s!"Opened {path} with {source.names.length} classes"

/-- The jar at a path, which tells its names in an order. -/
def openJar (order : Jar.Order) (path : String) : Run ClassSource := do
  let files ← Run.files
  let entries ← Run.check (files.readJar path)
  let source := jar path entries order
  logOpened path source
  return source

/-- Fails unless a directory stands at a path. -/
def checkDirectory (files : Files) (path : String) : Except Error Unit :=
  match files.find path with
  | .error cause => .error (.io path cause)
  | .ok (.file _) => .error (.io path .notDirectory)
  | .ok .directory => .ok ()

/-- The directory at a path. -/
def openDirectory (path : String) : Run ClassSource := do
  let files ← Run.files
  Run.check (checkDirectory files path)
  let source := directory path files
  logOpened path source
  return source

/-- The outcome of opening an entry of the classpath, with a failure reported as that of the entry. -/
def reported (path : String) (opening : Run ClassSource) : Run ClassSource := fun world =>
  match opening world with
  | .ok source world => .ok source world
  | .error error world => .error (.classpath path error) world

/-- The directory or jar at an entry of the classpath. -/
def openEntry (order : Jar.Order) (path : String) : Run ClassSource := do
  let files ← Run.files
  if files.isDirectory path then reported path (openDirectory path)
  else reported path (openJar order path)

end ClassSource

/-! ### Building the hierarchy -/

namespace Graph

/-- The graph with a class of a source, and whether the class is new. A name without a class changes
nothing. -/
def addFrom (source : ClassSource) (graph : Graph) (name : String) : Except Error (Graph × Nat) := do
  match ← source.classBytes? name with
  | none => return (graph, 0)
  | some bytes =>
    let header ← (Header.parse bytes).mapError
      (.malformedClass (source.describe ++ "!" ++ name ++ ".class"))
    return (graph.insert header, if graph.contains header.name then 0 else 1)

/-- The graph with all classes of a source, and how many of them are new. -/
def addSource (graph : Graph) (source : ClassSource) : Except Error (Graph × Nat) :=
  source.names.foldlM
    (fun (graph, count) name => do
      let (graph, new) ← addFrom source graph name
      return (graph, count + new))
    (graph, 0)

/-- The graph with all classes of a source, which is logged. -/
def addLogged (graph : Graph) (source : ClassSource) : Run Graph := do
  let (graph, count) ← Run.check (graph.addSource source)
  Run.log .debug s!"Indexed {count} classes from {source.describe}"
  return graph

/-- The hierarchy of the classes of sources. -/
def build (sources : List ClassSource) : Run Graph := do
  let graph ← sources.foldlM addLogged {}
  Run.log .info s!"Inheritance graph holds {graph.size} classes"
  return graph

end Graph

end JarRename
