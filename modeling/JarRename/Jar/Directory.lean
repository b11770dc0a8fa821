import JarRename.Jar.Field

/-!
**The directory of a jar file.**

Behind the contents of its entries a jar has a directory with one record for every entry, and at the end of the
file a footer that says where the directory is. A jar that is too large for the numbers in these has a second
footer with larger ones in front, and a locator that tells of it. Other bytes may stand before the jar, so that
all offsets are too small by as many.

* `Directory.Footer`: the footer, searched from the end of the file;
* `Directory.Extent`: where the directory is and how many records it has;
* `Directory.Record`: the record of an entry;
* `Directory.read`: the records of a jar.
-/

namespace JarRename.Jar.Directory

open JarRename.Jar.Field

/-! ### The footer -/

/-- The mark of the footer. -/
def footerMark : Bytes := [0x50, 0x4B, 0x05, 0x06]

/-- The size of the footer without its comment. -/
def footerSize : Nat := 22

/-- The most bytes of a comment. -/
def maxComment : Nat := 65535

/-- What the footer says. -/
structure Footer where
  /-- Where the footer is in the file. -/
  position : Nat
  disk : Nat
  directoryDisk : Nat
  countOnDisk : Nat
  count : Nat
  directorySize : Nat
  directoryOffset : Nat
  commentSize : Nat
  deriving DecidableEq

namespace Footer

/-- The position of the last footer in a file. -/
def find? (data : Array UInt8) : Option Nat :=
  let last := data.size - footerSize
  ((List.range (min last maxComment + 1)).map (last - ·)).find? fun position =>
    isAt data position footerMark

/-- The footer at a position, which has its whole comment behind it. -/
def readAt (data : Array UInt8) (position : Nat) : Except ArchiveCause Footer := do
  let disk ← number data (position + 4) 2
  let directoryDisk ← number data (position + 6) 2
  let countOnDisk ← number data (position + 8) 2
  let count ← number data (position + 10) 2
  let directorySize ← number data (position + 12) 4
  let directoryOffset ← number data (position + 16) 4
  let commentSize ← number data (position + 20) 2
  let _ ← slice data (position + footerSize) commentSize
  return { position, disk, directoryDisk, countOnDisk, count, directorySize, directoryOffset, commentSize }

/-- The footer of a file. -/
def read (data : Array UInt8) : Except ArchiveCause Footer :=
  if data.size < footerSize then .error .badHeader
  else
    match find? data with
    | none => .error .noDirectory
    | some position => readAt data position

/-- Whether a number of the footer may be too small for what it says. -/
def isTooSmall (footer : Footer) : Bool :=
  footer.disk == 0xFFFF || footer.directoryDisk == 0xFFFF || footer.countOnDisk == 0xFFFF ||
    footer.count == 0xFFFF || footer.directorySize == 0xFFFFFFFF || footer.directoryOffset == 0xFFFFFFFF

end Footer

/-! ### The extent of the directory -/

/-- Where the directory of a jar is. -/
structure Extent where
  /-- How many bytes stand before the jar. -/
  shift : Nat
  /-- Where the directory is in the file. -/
  start : Nat
  count : Nat
  deriving DecidableEq

namespace Extent

/-- The least number that does not fit into eight bytes. -/
def limit : Nat := 18446744073709551616

/-- The least position that no file has. -/
def positionLimit : Nat := 9223372036854775808

/-- The extent by the footer alone: the directory ends where the footer starts. -/
def ofFooter (footer : Footer) : Except ArchiveCause Extent :=
  let { position, directorySize, directoryOffset, countOnDisk, .. } := footer
  if position < directorySize + directoryOffset then .error .badExtent
  else
    .ok { shift := position - directorySize - directoryOffset
          start := position - directorySize
          count := countOnDisk }

/-- The mark of the locator. -/
def locatorMark : Bytes := [0x50, 0x4B, 0x06, 0x07]

/-- The size of the locator. -/
def locatorSize : Nat := 20

/-- The position of the locator, if there is one. It stands as far from the end of the file as the footer and its
comment take. -/
def locator? (data : Array UInt8) (footer : Footer) : Option Nat :=
  let behind := locatorSize + footerSize + footer.commentSize
  let position := data.size - behind
  if behind ≤ data.size && isAt data position locatorMark then some position else none

/-- The mark of the large footer. -/
def largeMark : Bytes := [0x50, 0x4B, 0x06, 0x06]

/-- The fewest bytes of the large footer and the locator. -/
def largeSize : Nat := 60

/-- The position of the large footer, from the one that the locator says up to the last one that has room. -/
def findLarge? (data : Array UInt8) (first last : Nat) : Option Nat :=
  ((List.range (last + 1 - first)).map (first + ·)).find? fun position => isAt data position largeMark

/-- The extent by the large footer, at a position that should be another one. -/
def ofLarge (data : Array UInt8) (position expected : Nat) : Except ArchiveCause Extent := do
  let disk ← number data (position + 16) 4
  let directoryDisk ← number data (position + 20) 4
  let count ← number data (position + 32) 8
  let offset ← number data (position + 48) 8
  let shift := position - expected
  if disk ≠ directoryDisk then throw .severalDisks
  else if limit ≤ offset + shift then throw .badExtent
  else return { shift, start := offset + shift, count }

/-- The extent by the locator at a position. -/
def ofLocator (data : Array UInt8) (footer : Footer) (locator : Nat) : Except ArchiveCause Extent := do
  let disk ← number data (locator + 4) 4
  let expected ← number data (locator + 8) 8
  if !footer.isTooSmall && footer.disk ≠ disk then throw .severalDisks
  else if footer.position < largeSize then throw .noRoomForLargeEnd
  else
    match findLarge? data expected (footer.position - largeSize) with
    | none => throw .noLargeEnd
    | some position => ofLarge data position expected

/-- The extent of the directory of a jar. -/
def read (data : Array UInt8) : Except ArchiveCause Extent := do
  let footer ← Footer.read data
  if !footer.isTooSmall && footer.disk ≠ footer.directoryDisk then throw .severalDisks
  else
    let extent ←
      match locator? data footer with
      | none => ofFooter footer
      | some locator => ofLocator data footer locator
    if positionLimit ≤ extent.start then throw .unreachableDirectory
    else return extent

end Extent

/-! ### Records -/

/-- What a record says of its entry. -/
structure Record where
  name : String
  isEncrypted : Bool
  /-- The number of the method. -/
  method : Nat
  time : Time
  crc : Nat
  packedSize : Nat
  size : Nat
  permissions : Option Nat
  /-- Where the header of the contents is. -/
  header : Nat
  /-- Whether the record tells of an encryption. -/
  hasCipher : Bool := false
  deriving DecidableEq

namespace Record

/-- The number that stands for one that is too large for four bytes. -/
def tooLarge : Nat := 0xFFFFFFFF

/-- A number that stands in eight bytes more if it is too large, and the bytes after those. -/
def enlarged? (value : Nat) (bytes : Bytes) : Option (Nat × Bytes) :=
  if value ≠ tooLarge then some (value, bytes)
  else if bytes.length < 8 then none
  else some (numberOf (bytes.take 8), bytes.drop 8)

/-- A record with the large numbers of an extra field in front of bytes, and the bytes after them. If the numbers
break off, those before are taken and nothing is left. -/
def enlarge (record : Record) (bytes : Bytes) : Record × Bytes :=
  match enlarged? record.size bytes with
  | none => (record, [])
  | some (size, bytes) =>
    let record := { record with size }
    match enlarged? record.packedSize bytes with
    | none => (record, [])
    | some (packedSize, bytes) =>
      let record := { record with packedSize }
      match enlarged? record.header bytes with
      | none => (record, [])
      | some (header, bytes) => ({ record with header }, bytes)

/-- A record with what an extra field of seven bytes tells of its encryption. -/
def encipher (record : Record) (bytes : Bytes) : Except ArchiveCause Record :=
  let version := numberOf (bytes.take 2)
  let vendor := numberOf ((bytes.drop 2).take 2)
  let strength := numberOf ((bytes.drop 4).take 1)
  if vendor ≠ 0x4541 then .error .cipherVendor
  else if version ≠ 1 ∧ version ≠ 2 then .error .cipherVersion
  else if strength ≠ 1 ∧ strength ≠ 2 ∧ strength ≠ 3 then .error .cipherStrength
  else .ok { record with method := numberOf ((bytes.drop 5).take 2), hasCipher := true }

/-- The size of an extra field about encryption. -/
def cipherSize : Nat := 7

/-- A record with at most `limit` of the extra fields in bytes. Each has its kind and its size in front; what
breaks off is ignored. -/
def addExtras (record : Record) : Nat → Bytes → Except ArchiveCause Record
  | 0, _ => .ok record
  | limit + 1, bytes =>
    if bytes.length < 4 then .ok record
    else
      let kind := numberOf (bytes.take 2)
      let size := numberOf ((bytes.drop 2).take 2)
      let bytes := bytes.drop 4
      if kind = 0x0001 then
        let (record, rest) := record.enlarge bytes
        addExtras record limit (rest.drop (size - (bytes.length - rest.length)))
      else if kind = 0x9901 then
        if size ≠ cipherSize then .error .cipherLength
        else if bytes.length < cipherSize then .ok record
        else do
          let record ← record.encipher bytes
          addExtras record limit (bytes.drop cipherSize)
      else addExtras record limit (bytes.drop size)

/-- The number of the method that stands for encryption. -/
def cipherMethod : Nat := 99

/-- A record whose offsets are too small by a shift. -/
def shifted (record : Record) (shift : Nat) : Except ArchiveCause Record :=
  if record.method = cipherMethod && !record.hasCipher then .error .noCipher
  else if Extent.limit ≤ record.header + shift then .error .headerTooFar
  else .ok { record with header := record.header + shift }

/-- The mark of records. -/
def mark : Bytes := [0x50, 0x4B, 0x01, 0x02]

/-- The size of a record without its name, its extra fields and its comment. -/
def fixedSize : Nat := 46

/-- The record at an offset, and the offset of the next one. -/
def readAt (data : Array UInt8) (shift offset : Nat) : Except ArchiveCause (Record × Nat) := do
  if (← slice data offset 4) ≠ mark then throw .badDirectory
  else
    let system ← number data (offset + 5) 1
    let flags ← number data (offset + 8) 2
    let method ← number data (offset + 10) 2
    let time ← number data (offset + 12) 2
    let date ← number data (offset + 14) 2
    let crc ← number data (offset + 16) 4
    let packedSize ← number data (offset + 20) 4
    let size ← number data (offset + 24) 4
    let nameSize ← number data (offset + 28) 2
    let extraSize ← number data (offset + 30) 2
    let commentSize ← number data (offset + 32) 2
    let attributes ← number data (offset + 38) 4
    let header ← number data (offset + 42) 4
    let name ← slice data (offset + fixedSize) nameSize
    let extras ← slice data (offset + fixedSize + nameSize) extraSize
    let _ ← slice data (offset + fixedSize + nameSize + extraSize) commentSize
    let record : Record :=
      { name := nameOf (hasFlag flags utf8Flag) name
        isEncrypted := hasFlag flags encryptedFlag
        time := timeOf date time
        permissions := permissionsOf system attributes
        method, crc, packedSize, size, header }
    let record ← record.addExtras (extraSize + 1) extras
    let record ← record.shifted shift
    return (record, offset + fixedSize + nameSize + extraSize + commentSize)

end Record

/-- Several records from an offset on, after those found before them (latest first). -/
def readRecords (data : Array UInt8) (shift : Nat) (found : List Record) :
    (offset count : Nat) → Except ArchiveCause (List Record)
  | _, 0 => .ok found.reverse
  | offset, count + 1 => do
    let (record, offset) ← Record.readAt data shift offset
    readRecords data shift (record :: found) offset count

/-- The records of a jar. -/
def read (data : Array UInt8) : Except ArchiveCause (List Record) := do
  let { shift, start, count } ← Extent.read data
  readRecords data shift [] start count

end JarRename.Jar.Directory
