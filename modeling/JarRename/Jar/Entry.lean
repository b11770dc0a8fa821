import JarRename.Bytes.Word
import JarRename.Error

/-!
**Jars.**

A jar is its list of entries, in order. The same name may stand on several entries, of which the last one
is found by name. An entry is opened before it is read or copied, and what is wrong with it may show in either
step. An opened jar tells the names of its entries in no particular order, and in another one each time it is
opened.

* `Jar.Entry`: an entry with its contents and its marks;
* `Jar.Damage`: what can keep an entry from being opened or read;
* `Jar.Entry.checkOpens`, `Jar.Entry.contents`, `Jar.Entry.readFrom`: opening and reading;
* `Jar.Entry.copied`, `Jar.Entry.replaced`: entries as they are written;
* `Jar.Order`, `Jar.names`, `Jar.find?`: entries by name.
-/

namespace JarRename.Jar

/-- How the contents of an entry are stored. -/
inductive Method where
  | stored
  | deflated
  deriving DecidableEq

/-- When an entry was last changed. -/
structure Time where
  year : Nat := 1980
  month : Nat := 1
  day : Nat := 1
  hour : Nat := 0
  minute : Nat := 0
  second : Nat := 0
  deriving DecidableEq

/-- What can be wrong with an entry. -/
inductive Damage where
  /-- The contents do not have the checksum they are stored with. -/
  | checksum
  /-- The compressed contents break the rules of their format. -/
  | corrupt
  /-- The compressed contents end too early. -/
  | incomplete
  /-- The contents are stored in an unknown way. -/
  | method
  /-- The contents are encrypted. -/
  | encrypted
  /-- The contents have no header. -/
  | noHeader
  /-- The header of the contents is cut off at the end of the file. -/
  | cutHeader
  /-- The header of the contents would be beyond every file. -/
  | farHeader
  deriving DecidableEq

/-- An entry of a jar. -/
structure Entry where
  name : String
  data : Bytes
  method : Method
  /-- The permissions, if they are recorded. -/
  permissions : Option Nat
  time : Time
  damage : Option Damage
  deriving DecidableEq

namespace Entry

/-- Whether an entry is a directory. -/
def isDirectory (entry : Entry) : Bool :=
  entry.name.toList.getLast?.any fun c => c == '/' || c == '\\'

/-! ### Reading -/

/-- Fails if an entry cannot be opened. -/
def checkOpens (entry : Entry) : Except ArchiveCause Unit :=
  match entry.damage with
  | some .method => .error .unknownMethod
  | some .encrypted => .error .encrypted
  | some .noHeader => .error .badEntryHeader
  | some .cutHeader => .error (.io .endOfFile)
  | some .farHeader => .error (.io .badArgument)
  | _ => .ok ()

/-- The contents of an entry that can be opened. -/
def contents (entry : Entry) : Except IoCause Bytes :=
  match entry.damage with
  | some .checksum => .error .badChecksum
  | some .corrupt => .error .corruptStream
  | some .incomplete => .error .incompleteStream
  | _ => .ok entry.data

/-- The contents of an entry of the jar at a path. -/
def readFrom (path : String) (entry : Entry) : Except Error Bytes := do
  entry.checkOpens.mapError (.archive path)
  entry.contents.mapError (.io path)

/-! ### Writing -/

/-- The permissions of an entry that records none. -/
def defaultPermissions : Nat := 0o644

/-- An entry as it is copied. The default is recorded for permissions that are not, and permissions to nothing
at all are not recorded. -/
def copied (entry : Entry) : Entry :=
  { entry with
    permissions :=
      match entry.permissions with
      | none => some defaultPermissions
      | some permissions => if permissions = 0 then none else some permissions }

/-- An entry with another name and other contents. -/
def replaced (entry : Entry) (name : String) (data : Bytes) : Entry :=
  { entry with
    name, data
    permissions := some (entry.permissions.getD defaultPermissions)
    damage := none }

end Entry

/-! ### Names -/

/-- An order in which an opened jar tells the names of its entries. -/
structure Order where
  arrange : List String → List String
  /-- All names are told, and each of them once. -/
  perm : ∀ names, (arrange names).Perm names

/-- The order of the first entries of the names. -/
def Order.first : Order where
  arrange names := names
  perm names := .refl names

/-- The names of entries without repetition, in an order. -/
def names (order : Order) (entries : List Entry) : List String :=
  order.arrange (entries.map Entry.name).eraseDups

/-- The last entry of a name. -/
def find? (entries : List Entry) (name : String) : Option Entry :=
  entries.reverse.find? fun entry => entry.name == name

end JarRename.Jar
