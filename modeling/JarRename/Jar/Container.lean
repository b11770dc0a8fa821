import JarRename.Jar.Checksum
import JarRename.Jar.Directory
import JarRename.Jar.Inflate

/-!
**The file of a jar.**

A jar is stored as the contents of its entries, each behind a header of its own, and a directory of them. The
directory tells the most about an entry; the header is only passed over.

* `Jar.Container.parse`: the entries in the bytes of a jar;
* `Jar.Container.toBytes`: the bytes of a jar.
-/

namespace JarRename.Jar.Container

open JarRename.Jar.Field JarRename.Jar.Directory

/-! ### Reading -/

/-- The mark of the headers in front of contents. -/
def headerMark : Bytes := [0x50, 0x4B, 0x03, 0x04]

/-- The size of a header without its name and its extra fields. -/
def headerSize : Nat := 30

/-- The offset of the contents behind the header at an offset. -/
def contentsOffset (data : Array UInt8) (header : Nat) : Except ArchiveCause Nat := do
  let nameSize ← number data (header + 26) 2
  let extraSize ← number data (header + 28) 2
  return header + headerSize + nameSize + extraSize

/-- Where the contents of a record's entry are, unless the header is damaged. -/
def locate (data : Array UInt8) (record : Record) : Except Damage Nat :=
  if Extent.positionLimit ≤ record.header then .error .farHeader
  else
    match slice data record.header 4 with
    | .error _ => .error .cutHeader
    | .ok mark =>
      if mark ≠ headerMark then .error .noHeader
      else (contentsOffset data record.header).mapError fun _ => .cutHeader

/-- The method of a number, if it is known. -/
def methodOf? (number : Nat) : Option Method :=
  if number = 0 then some .stored
  else if number = 8 then some .deflated
  else none

/-- Contents that were stored with a method. -/
def unpack (method : Method) (packed : Bytes) : Except Damage Bytes :=
  match method with
  | .stored => .ok packed
  | .deflated =>
    (inflate packed).mapError fun
      | .corrupt => .corrupt
      | .incomplete => .incomplete

/-- The contents of a record's entry: where they are, how they are stored, and whether they have their
checksum. Contents that go on behind the end of the file end there. -/
def contentsOf (data : Array UInt8) (record : Record) : Except Damage Bytes := do
  if record.isEncrypted then throw .encrypted
  else
    let offset ← locate data record
    match methodOf? record.method with
    | none => throw .method
    | some method =>
      if record.hasCipher then throw .encrypted
      else
        let contents ← unpack method (data.extract offset (offset + record.packedSize)).toList
        if (checksum contents).toNat = record.crc then return contents else throw .checksum

/-- The entry of a record. -/
def entryOf (data : Array UInt8) (record : Record) : Entry :=
  let { name, method, permissions, time, .. } := record
  let method := if method = 0 then Method.stored else .deflated
  match contentsOf data record with
  | .ok contents => { name, data := contents, method, permissions, time, damage := none }
  | .error damage => { name, data := [], method, permissions, time, damage := some damage }

/-- The entries in the bytes of a jar. -/
def parse (data : Array UInt8) : Except ArchiveCause (List Entry) := do
  return (← Directory.read data).map (entryOf data)

/-! ### Writing -/

/-- An entry as it is stored. -/
structure Packed where
  entry : Entry
  name : Bytes
  contents : Bytes
  crc : Nat

/-- The contents of an entry as they are stored with its method. Damaged contents are stored so that they are
damaged in the same way. -/
def packedContents (entry : Entry) : Bytes :=
  match entry.damage, entry.method with
  | some .corrupt, _ => [0x07]
  | some .incomplete, _ => []
  | _, .stored => entry.data
  | _, .deflated => deflate entry.data

/-- An entry as it is stored. Damaged contents keep a checksum that is not theirs. -/
def pack (entry : Entry) : Packed :=
  let crc := checksum entry.data
  { entry
    name := entry.name.toUTF8.toList
    contents := packedContents entry
    crc := (if entry.damage = some .checksum then crc ^^^ 0xFFFFFFFF else crc).toNat }

/-- The number of no method that is known. -/
def unknownMethod : Nat := 12

/-- The number of the method of an entry. -/
def methodNumber (entry : Entry) : Nat :=
  match entry.damage, entry.method with
  | some .method, _ => unknownMethod
  | _, .stored => 0
  | _, .deflated => 8

namespace Packed

/-- The version that is needed to read entries. -/
def version : Nat := 20

/-- The marks of an entry. -/
def flags (packed : Packed) : Nat :=
  (if packed.name.all fun byte => byte.toNat < 128 then 0 else utf8Flag) +
    (if packed.entry.damage = some .encrypted then encryptedFlag else 0)

/-- What the header and the record of an entry have in common. -/
def facts (packed : Packed) : Bytes :=
  let entry := packed.entry
  little 2 version ++ little 2 packed.flags ++ little 2 (methodNumber entry) ++
    little 2 (timeNumber entry.time) ++ little 2 (dateNumber entry.time) ++ little 4 packed.crc ++
    little 4 packed.contents.length ++ little 4 entry.data.length ++ little 2 packed.name.length ++
    little 2 0

/-- Whether the contents of an entry have a header. -/
def hasHeader (packed : Packed) : Bool :=
  match packed.entry.damage with
  | some .noHeader | some .cutHeader | some .farHeader => false
  | _ => true

/-- The contents of an entry behind their header. -/
def toBytes (packed : Packed) : Bytes :=
  (if packed.hasHeader then headerMark else little 4 0) ++ packed.facts ++ packed.name ++ packed.contents

/-- The record of an entry whose header is at an offset. -/
def record (packed : Packed) (offset : Nat) : Bytes :=
  Record.mark ++ little 2 (3 * 256 + version) ++ packed.facts ++ little 6 0 ++
    little 4 (attributesOf packed.entry) ++ little 4 offset ++ packed.name

end Packed

/-- The offsets of parts that stand end to end. -/
def offsets (start : Nat) : List Bytes → List Nat
  | [] => []
  | part :: rest => start :: offsets (start + part.length) rest

/-- The bytes of a jar. -/
def toBytes (entries : List Entry) : Bytes :=
  let packed := entries.map pack
  let parts := packed.map Packed.toBytes
  let contents := parts.flatten
  let directory := (packed.zip (offsets 0 parts)).flatMap fun (item, offset) => item.record offset
  contents ++ directory ++ footerMark ++ little 4 0 ++ little 2 entries.length ++ little 2 entries.length ++
    little 4 directory.length ++ little 4 contents.length ++ little 2 0

end JarRename.Jar.Container
