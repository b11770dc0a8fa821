import JarRename.Descriptor
import JarRename.Mapping.Format
import JarRename.Mapping.Lines
import JarRename.Mapping.ProGuard
import Std.Data.HashMap

/-!
**Mapping tables.**

A table answers by exact keys: a class by its name, a field by its owner and name, a method by its owner,
name and descriptor. A table for the reverse direction is built from the entries with old and new names
swapped, where owners and descriptors are spelled with the new names.

* `Table.insert`: a table with one entry more;
* `Table.class?`, `Table.field?`, `Table.method?`: the answers;
* `Table.ofEntries`, `Table.parse`: the table of entries or of a text, in a direction.
-/

namespace JarRename

/-- The key of a field. -/
structure FieldKey where
  owner : String
  name : String
  deriving DecidableEq, Hashable

/-- The key of a method. -/
structure MethodKey where
  owner : String
  name : String
  descriptor : String
  deriving DecidableEq, Hashable

/-- A mapping table. -/
structure Table where
  classes : Std.HashMap String String := {}
  fields : Std.HashMap FieldKey String := {}
  methods : Std.HashMap MethodKey String := {}

namespace Table

open Mapping

/-! ### Looking up -/

/-- The new name of a class. -/
def class? (table : Table) (name : String) : Option String :=
  table.classes[name]?

/-- The new name of a field. -/
def field? (table : Table) (owner name : String) : Option String :=
  table.fields[FieldKey.mk owner name]?

/-- The new name of a method. -/
def method? (table : Table) (owner name descriptor : String) : Option String :=
  table.methods[MethodKey.mk owner name descriptor]?

/-- The new name of a class, or its name if it has no entry. -/
def classOrKeep (table : Table) (name : String) : String :=
  renameOrKeep table.class? name

/-- A descriptor with its classes renamed. -/
def mapDescriptor (table : Table) (descriptor : String) : Except Fault String :=
  Descriptor.rename table.class? descriptor

/-- Whether a table has no entries. -/
def isEmpty (table : Table) : Bool :=
  table.classes.isEmpty && table.fields.isEmpty && table.methods.isEmpty

/-! ### Building -/

/-- Fails unless a key can be given a new name: it has none yet, or the same. -/
def checkFree (subject : Subject) (key : String) (existing : Option String) (new : String) :
    Except MappingCause Unit :=
  match existing with
  | none => .ok ()
  | some existing =>
    if existing = new then .ok () else .error (.conflict subject key existing new)

/-- The table with one entry more. An entry may be repeated, but not contradicted. -/
def add (table : Table) : Entry → Except MappingCause Table
  | .ofClass old new => do
    checkFree .ofClass old (table.class? old) new
    return { table with classes := table.classes.insert old new }
  | .ofField owner old new => do
    checkFree .ofField (owner ++ "." ++ old) (table.field? owner old) new
    return { table with fields := table.fields.insert { owner, name := old } new }
  | .ofMethod owner old descriptor new => do
    let _ ← (MethodType.parse descriptor).mapError .badDescriptor
    checkFree .ofMethod (owner ++ "." ++ old ++ descriptor) (table.method? owner old descriptor) new
    return { table with methods := table.methods.insert { owner, name := old, descriptor } new }

/-- The table with one entry more, whose line is reported if it fails. -/
def insert (table : Table) (line : Nat) (entry : Entry) : Except MappingError Table :=
  (table.add entry).mapError fun cause => { line, cause }

/-- The table of entries from old names to new ones. -/
def ofForward (entries : List Numbered) : Except MappingError Table :=
  entries.foldlM (fun table (line, entry) => table.insert line entry) {}

/-- An entry from the new name to the old one, in the spelling of a forward table. -/
def swap (forward : Table) : Entry → Except Fault Entry
  | .ofClass old new => return .ofClass new old
  | .ofField owner old new => return .ofField (forward.classOrKeep owner) new old
  | .ofMethod owner old descriptor new => do
    return .ofMethod (forward.classOrKeep owner) new (← forward.mapDescriptor descriptor) old

/-- The table with one swapped entry more. -/
def insertSwapped (forward table : Table) (line : Nat) (entry : Entry) :
    Except MappingError Table := do
  let entry ← (forward.swap entry).mapError fun cause => { line, cause := .badDescriptor cause }
  table.insert line entry

/-- The table of entries from new names to old ones, in the spelling of a forward table. -/
def ofReverse (forward : Table) (entries : List Numbered) : Except MappingError Table :=
  entries.foldlM (fun table (line, entry) => forward.insertSwapped table line entry) {}

/-- The table of entries in a direction. -/
def ofEntries (entries : List Numbered) (direction : Direction) : Except MappingError Table := do
  let forward ← ofForward entries
  match direction with
  | .forward => return forward
  | .reverse => ofReverse forward entries

end Table

namespace Mapping

/-- The numbered entries of a text in a format. -/
def parseAs (format : Format) (text : String) : Except MappingError (List Numbered) :=
  match format with
  | .srg => parseSrg text
  | .csrg => parseCsrg text
  | .tsrg => parseTsrg text
  | .proGuard => parseProGuard text

end Mapping

/-- The table of a text in a direction, in the format that the text shows. -/
def Table.parse (text : String) (direction : Mapping.Direction) : Except MappingError Table := do
  let entries ← Mapping.parseAs (Mapping.Format.detect text) text
  Table.ofEntries entries direction

end JarRename
