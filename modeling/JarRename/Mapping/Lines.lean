import JarRename.Mapping.Entry
import JarRename.Text.Blank

/-!
**The line formats of mappings.**

Three formats have one entry to a line. Comments start with `#`, empty lines count but say nothing, and
words are separated by white space.

* `Mapping.contentLines`: the lines that say something, with their numbers;
* `Mapping.parseSrg`, `Mapping.parseCsrg`, `Mapping.parseTsrg`: the numbered entries of a text.
-/

namespace JarRename.Mapping

/-- An entry with the number of its line. -/
abbrev Numbered := Nat × Entry

/-- A line without its comment and the white space at its end. -/
def withoutComment (line : List Char) : List Char :=
  Text.trimEnd (line.takeWhile (· != '#'))

/-- The lines of a text that say something, numbered from one. White space in front is kept. -/
def contentLines (text : List Char) : List (Nat × List Char) :=
  ((Text.lines text).zipIdx 1).filterMap fun (line, number) =>
    let line := withoutComment line
    if (Text.trimStart line).isEmpty then none else some (number, line)

/-- Whether a name is that of a package. Renamings of packages say nothing about classes. -/
def isPackage (name : List Char) : Bool :=
  name == ['.'] || name == ['.', '/'] || name.getLast? == some '/'

/-- The entry of a class. -/
def classEntry (old new : List Char) : Entry :=
  .ofClass (String.ofList old) (String.ofList new)

/-- The entry of a field. -/
def fieldEntry (owner old new : List Char) : Entry :=
  .ofField (String.ofList owner) (String.ofList old) (String.ofList new)

/-- The entry of a method. -/
def methodEntry (owner old descriptor new : List Char) : Entry :=
  .ofMethod (String.ofList owner) (String.ofList old) (String.ofList descriptor) (String.ofList new)

/-- The entries of lines, each read on its own. -/
def readLines (entry : List Char → Except MappingCause (Option Entry)) (text : String) :
    Except MappingError (List Numbered) := do
  let found ← (contentLines text.toList).mapM fun (number, line) =>
    match entry line with
    | .ok found => .ok (found.map (number, ·))
    | .error cause => .error { line := number, cause }
  return found.filterMap id

/-! ### SRG -/

/-- The owner and the name in a path to a member. -/
def splitMember (path : List Char) : Except MappingCause (List Char × List Char) :=
  match Text.splitLast? '/' path with
  | some (owner, name) =>
    if owner.isEmpty || name.isEmpty then .error (.notMemberPath (String.ofList path))
    else .ok (owner, name)
  | none => .error (.notMemberPath (String.ofList path))

/-- The entry of a line of SRG. -/
def srgEntry (line : List Char) : Except MappingCause (Option Entry) :=
  match Text.words line with
  | [] => .error (.unknownLine (String.ofList line))
  | mark :: words =>
    if mark = "PK:".toList then .ok none
    else
      match words with
      | [old, new] =>
        if mark = "CL:".toList then .ok (some (classEntry old new))
        else if mark = "FD:".toList then do
          let (owner, old) ← splitMember old
          let (_, new) ← splitMember new
          return some (fieldEntry owner old new)
        else .error (.unknownLine (String.ofList line))
      | [old, descriptor, new, _] =>
        if mark = "MD:".toList then do
          let (owner, old) ← splitMember old
          let (_, new) ← splitMember new
          return some (methodEntry owner old descriptor new)
        else .error (.unknownLine (String.ofList line))
      | _ => .error (.unknownLine (String.ofList line))

/-- The entries of a text in SRG. -/
def parseSrg (text : String) : Except MappingError (List Numbered) :=
  readLines srgEntry text

/-! ### CSRG -/

/-- The entry of a line of CSRG. -/
def csrgEntry (line : List Char) : Except MappingCause (Option Entry) :=
  match Text.words line with
  | [old, new] =>
    if isPackage old && isPackage new then .ok none else .ok (some (classEntry old new))
  | [owner, old, new] => .ok (some (fieldEntry owner old new))
  | [owner, old, descriptor, new] => .ok (some (methodEntry owner old descriptor new))
  | words => .error (.wordCount words.length)

/-- The entries of a text in CSRG. -/
def parseCsrg (text : String) : Except MappingError (List Numbered) :=
  readLines csrgEntry text

/-! ### TSRG -/

/-- Whether a line is indented. -/
def isIndented (line : List Char) : Bool :=
  line.head? == some '\t' || line.head? == some ' '

/-- The entry of a line of TSRG at the margin, and the class that the indented lines after it belong to. -/
def tsrgClassLine (line : List Char) :
    Except MappingCause (Option (List Char) × Option Entry) :=
  match Text.words line with
  | [old, new] =>
    if isPackage old && isPackage new then .ok (none, none)
    else .ok (some old, some (classEntry old new))
  | _ => .error (.notClassLine (String.ofList line))

/-- The entry of an indented line of TSRG after the line of a class. -/
def tsrgMemberLine (owner : Option (List Char)) (line : List Char) : Except MappingCause Entry :=
  match owner with
  | none => .error .memberOutsideClass
  | some owner =>
    match Text.words line with
    | [old, new] => .ok (fieldEntry owner old new)
    | [old, descriptor, new] => .ok (methodEntry owner old descriptor new)
    | _ => .error (.notMemberLine (String.ofList line))

/-- The entry of a line of TSRG, and the class that the indented lines after it belong to. -/
def tsrgLine (owner : Option (List Char)) (line : List Char) :
    Except MappingCause (Option (List Char) × Option Entry) :=
  if "tsrg2 ".toList.isPrefixOf line then .error .newerFormat
  else if isIndented line then do
    let entry ← tsrgMemberLine owner line
    return (owner, some entry)
  else tsrgClassLine line

/-- The entries of lines of TSRG after those found before them (latest first). -/
def tsrgLines (owner : Option (List Char)) (found : List Numbered) :
    List (Nat × List Char) → Except MappingError (List Numbered)
  | [] => .ok found.reverse
  | (number, line) :: rest =>
    match tsrgLine owner line with
    | .error cause => .error { line := number, cause }
    | .ok (owner, none) => tsrgLines owner found rest
    | .ok (owner, some entry) => tsrgLines owner ((number, entry) :: found) rest

/-- The entries of a text in TSRG. -/
def parseTsrg (text : String) : Except MappingError (List Numbered) :=
  tsrgLines none [] (contentLines text.toList)

end JarRename.Mapping
