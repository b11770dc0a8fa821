import JarRename.Jar.Entry
import JarRename.Text.Utf8

/-!
**The fields of jar files.**

Numbers are stored with the least significant byte first, names in UTF-8 or in an old set of 256 characters,
times in two numbers of two bytes, and permissions by a kind of system.

* `Field.numberOf`, `Field.little`: numbers;
* `Field.slice`, `Field.number`: what stands at an offset of a file;
* `Field.nameOf`, `Field.timeOf`, `Field.permissionsOf`: what fields stand for;
* `Field.timeNumber`, `Field.dateNumber`, `Field.attributesOf`: the fields of an entry.
-/

namespace JarRename.Jar.Field

/-! ### Numbers -/

/-- The number in bytes, the least significant one first. -/
def numberOf (bytes : Bytes) : Nat :=
  bytes.foldr (fun byte high => byte.toNat + 256 * high) 0

/-- The bytes of a number, the least significant one first. -/
def little : (size n : Nat) → Bytes
  | 0, _ => []
  | size + 1, n => UInt8.ofNat n :: little size (n / 256)

/-- The bytes from an offset on, all of which must be there. -/
def slice (data : Array UInt8) (offset size : Nat) : Except ArchiveCause Bytes :=
  if offset + size ≤ data.size then .ok (data.extract offset (offset + size)).toList
  else .error (.io .endOfFile)

/-- The number at an offset. -/
def number (data : Array UInt8) (offset size : Nat) : Except ArchiveCause Nat := do
  return numberOf (← slice data offset size)

/-- Whether given bytes stand at an offset. -/
def isAt (data : Array UInt8) (offset : Nat) (mark : Bytes) : Bool :=
  match slice data offset mark.length with
  | .ok found => found == mark
  | .error _ => false

/-- Whether a bit is set in a number. -/
def hasFlag (n flag : Nat) : Bool :=
  n / flag % 2 == 1

/-! ### Names -/

/-- The characters of the bytes beyond ASCII in names that are not marked as UTF-8. -/
def upperChars : Array Char :=
  ("ÇüéâäàåçêëèïîìÄÅÉæÆôöòûùÿÖÜ¢£¥₧ƒáíóúñÑªº¿⌐¬½¼¡«»░▒▓│┤╡╢╖╕╣║╗╝╜╛┐└┴┬├─┼╞╟╚╔╩╦╠═╬╧╨╤╥╙╘╒╓╫╪┘┌█▄▌▐▀" ++
    "αßΓπΣσµτΦΘΩδ∞φε∩≡±≥≤⌠⌡÷≈°∙·√ⁿ²■\u00a0").toList.toArray

/-- The character of a byte in a name that is not marked as UTF-8. -/
def charOf (byte : UInt8) : Char :=
  if byte.toNat < 128 then Char.ofNat byte.toNat else upperChars.getD (byte.toNat - 128) '?'

/-- The text of a name. -/
def nameOf (isUtf8 : Bool) (bytes : Bytes) : String :=
  String.ofList (if isUtf8 then Text.readLoosely bytes else bytes.map charOf)

/-- The mark of names in UTF-8. -/
def utf8Flag : Nat := 0x0800

/-- The mark of encrypted contents. -/
def encryptedFlag : Nat := 0x0001

/-! ### Times and permissions -/

/-- The time in its two numbers of two bytes. -/
def timeOf (date time : Nat) : Time where
  year := 1980 + date / 512
  month := date / 32 % 16
  day := date % 32
  hour := time / 2048
  minute := time / 32 % 64
  second := time % 32 * 2

/-- The number of the day of a time. -/
def dateNumber (time : Time) : Nat :=
  (time.year - 1980) * 512 + time.month * 32 + time.day

/-- The number of the time of day of a time. -/
def timeNumber (time : Time) : Nat :=
  time.hour * 2048 + time.minute * 32 + time.second / 2

/-- The number of the kind of system that has marks for directories and for files that are only read. -/
def markingSystem : Nat := 0

/-- The number of the kind of system that has permissions. -/
def permittingSystem : Nat := 3

/-- The permissions in the attributes of an entry by the kind of system it was made on. -/
def permissionsOf (system attributes : Nat) : Option Nat :=
  if attributes = 0 then none
  else if system = permittingSystem then some (attributes / 65536 % 512)
  else if system = markingSystem then
    let all := if hasFlag attributes 0x10 then 0o775 else 0o664
    some (if hasFlag attributes 0x01 then all &&& 0o555 else all)
  else none

/-- The attributes of an entry on a system that has permissions: what it is and its permissions. -/
def attributesOf (entry : Entry) : Nat :=
  match entry.permissions with
  | none => 0
  | some permissions => ((if entry.isDirectory then 0o040000 else 0o100000) + permissions) * 65536

end JarRename.Jar.Field
