import JarRename.Fault

/-!
**Mapping entries.**

A mapping says which new name a class, a field or a method gets. Entries are read from the numbered lines
of a text, and everything wrong with a mapping is reported with such a number.

* `Mapping.Entry`: one renaming;
* `Mapping.Direction`: from old names to new ones or back;
* `MappingError`: what can be wrong with a mapping, with its wording (`MappingCause.message`).
-/

namespace JarRename

namespace Mapping

/-- One renaming. -/
inductive Entry where
  | ofClass (old new : String)
  | ofField (owner old new : String)
  | ofMethod (owner old descriptor new : String)
  deriving DecidableEq

/-- The way a mapping is used. -/
inductive Direction where
  | forward
  | reverse
  deriving DecidableEq

/-- The name of a direction in messages. -/
def Direction.name : Direction → String
  | forward => "Forward"
  | reverse => "Reverse"

/-- The sorts of things that are renamed. -/
inductive Subject where
  | ofClass
  | ofField
  | ofMethod
  deriving DecidableEq

/-- The name of a sort in messages. -/
def Subject.name : Subject → String
  | ofClass => "class"
  | ofField => "field"
  | ofMethod => "method"

end Mapping

/-- What can be wrong with a mapping. -/
inductive MappingCause where
  /-- A path to a member has no owner or no name. -/
  | notMemberPath (path : String)
  /-- A line has no known form. -/
  | unknownLine (line : String)
  /-- A line has too few or too many words. -/
  | wordCount (count : Nat)
  /-- The text has a newer version of its format. -/
  | newerFormat
  /-- A line at the margin does not rename a class. -/
  | notClassLine (line : String)
  /-- An indented line does not rename a member. -/
  | notMemberLine (line : String)
  /-- An indented line comes before any class. -/
  | memberOutsideClass
  /-- A record has no known form. -/
  | badRecord
  /-- The record of a field or a method comes before any class. -/
  | recordOutsideClass (subject : Mapping.Subject)
  /-- The descriptor of a method is malformed. -/
  | badDescriptor (cause : Fault)
  /-- A second entry gives something another new name. -/
  | conflict (subject : Mapping.Subject) (key existing new : String)
  deriving DecidableEq

/-- The wording of what can be wrong with a mapping. -/
def MappingCause.message : MappingCause → String
  | notMemberPath path => Text.quoted path ++ " is not an owner/name pair"
  | unknownLine line => "unrecognised SRG line " ++ Text.quoted line
  | wordCount count => s!"expected 2 to 4 tokens, found {count}"
  | newerFormat => "TSRG v2 mappings are not supported"
  | notClassLine line => "expected a class line, found " ++ Text.quoted line
  | notMemberLine line => "expected a member line, found " ++ Text.quoted line
  | memberOutsideClass => "member line outside of a class"
  | badRecord => "line is not a valid proguard record"
  | recordOutsideClass subject => subject.name ++ " outside of a class"
  | badDescriptor cause => cause.message
  | conflict subject key existing new =>
    subject.name ++ " " ++ key ++ " is already mapped to " ++ existing ++ ", not " ++ new

/-- What is wrong with a mapping, and in which line. -/
structure MappingError where
  line : Nat
  cause : MappingCause
  deriving DecidableEq

end JarRename
