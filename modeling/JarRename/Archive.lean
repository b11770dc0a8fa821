import JarRename.ClassSource
import JarRename.Renaming
import JarRename.Resolver
import Std.Data.HashSet

/-!
**Renaming archives.**

A jar is renamed entry by entry. Classes are renamed and move with their names, everything else is copied.
The output is written only when every entry has succeeded and no two entries got one name.

* `Archive.convert`: an entry renamed or copied;
* `Archive.renameEntries`: all entries of a jar;
* `Archive.rename`: the jar at a path renamed into another path;
* `Summary`: what was done.
-/

namespace JarRename

/-- What was done with the entries of a jar. -/
structure Summary where
  classes : Nat := 0
  resources : Nat := 0
  /-- The entries that got another name, with both names. -/
  renamed : List (String × String) := []
  deriving DecidableEq

/-- The number of entries. -/
def Summary.entries (summary : Summary) : Nat :=
  summary.classes + summary.resources

namespace Archive

/-- An entry of the output. -/
inductive Converted where
  | copied (entry : Jar.Entry)
  /-- A class, with the number of sites that changed in it. -/
  | renamed (entry : Jar.Entry) (changes : Nat)

/-- The entry of the output. -/
def Converted.entry : Converted → Jar.Entry
  | copied entry | renamed entry _ => entry

/-- An entry of the jar at a path renamed or copied. -/
def convert (renamer : Renamer) (path : String) (entry : Jar.Entry) : Except Error Converted := do
  entry.checkOpens.mapError (.archive path)
  if entry.isDirectory || !Jar.isClassEntry entry.name then return .copied entry.copied
  else
    let bytes ← entry.contents.mapError (.io path)
    let { oldName, newName, bytes, changes } ←
      (ClassFile.renameBytes renamer bytes).mapError (.malformedClass entry.name)
    let name := Jar.movedName entry.name oldName newName
    return .renamed (entry.replaced name bytes) changes

/-- The line logged for an entry. -/
def noteOf (entry : Jar.Entry) : Converted → String
  | .copied _ => "Copying " ++ entry.name
  | .renamed target changes => s!"Rewrote {changes} sites in {entry.name} -> {target.name}"

/-- The entries of the output so far. -/
structure Progress where
  summary : Summary := {}
  /-- The names of the entries. -/
  taken : Std.HashSet String := {}
  entries : Array Jar.Entry := #[]

/-- The progress with one entry more, that was of another name before. -/
def Progress.add (progress : Progress) (oldName : String) (converted : Converted) : Progress where
  summary :=
    match converted with
    | .copied _ => { progress.summary with resources := progress.summary.resources + 1 }
    | .renamed entry _ =>
      { progress.summary with
        classes := progress.summary.classes + 1
        renamed :=
          if entry.name = oldName then progress.summary.renamed
          else progress.summary.renamed ++ [(oldName, entry.name)] }
  taken := progress.taken.insert converted.entry.name
  entries := progress.entries.push converted.entry

/-- The progress with an entry of the jar at a path. -/
def renameEntry (renamer : Renamer) (path : String) (progress : Progress) (entry : Jar.Entry) :
    Run Progress := do
  let converted ← Run.check (convert renamer path entry)
  Run.log .debug (noteOf entry converted)
  if progress.taken.contains converted.entry.name then throw (.duplicate converted.entry.name)
  else return progress.add entry.name converted

/-- All entries of the jar at a path. -/
def renameEntries (renamer : Renamer) (path : String) (entries : List Jar.Entry) : Run Progress :=
  entries.foldlM (renameEntry renamer path) {}

/-- Fails unless a temporary file can be made in a directory. -/
def checkTemporary (files : Files) (directory : String) : Except Error Unit :=
  match files.find directory with
  | .ok .directory => .ok ()
  | .ok (.file _) => .error (.io directory (.noTemporary .notDirectory directory))
  | .error cause => .error (.io directory (.noTemporary cause directory))

/-- The jar at the path `input` renamed into the path `output`. -/
def rename (renamer : Renamer) (input output : String) : Run Summary := do
  let files ← Run.files
  let entries ← Run.check (files.readJar input)
  Run.check (checkTemporary files (Files.directoryOf output))
  let { summary, entries, .. } ← renameEntries renamer input entries
  let files ← Run.check ((files.write output (.jar entries.toList)).mapError (.io output))
  modify fun world => { world with files }
  let { classes, resources, renamed } := summary
  Run.log .info
    s!"Wrote {output}: {classes} classes ({renamed.length} renamed), {resources} resources"
  return summary

end Archive

end JarRename
