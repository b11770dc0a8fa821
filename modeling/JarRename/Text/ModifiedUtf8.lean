import JarRename.Fault

/-!
**Modified UTF-8.**

Class files store text as the UTF-16 units of its characters, each unit in one, two or three bytes.
The null unit takes two bytes, so no byte of a text is zero, and a character beyond the first plane
takes two units of three bytes.

* `encode`: the bytes of a text, every unit in its shortest form;
* `decode`: the text of bytes, accepting longer forms too;
* `unitsOfBytes`, `charsOfUnits`: the two steps of decoding.
-/

namespace JarRename.Text

/-! ### Encoding -/

/-- The UTF-16 units of a character. -/
def unitsOfChar (c : Char) : List Nat :=
  if c.toNat < 0x10000 then [c.toNat]
  else [0xD800 + (c.toNat - 0x10000) / 0x400, 0xDC00 + (c.toNat - 0x10000) % 0x400]

/-- The shortest form of a unit. -/
def bytesOfUnit (unit : Nat) : List UInt8 :=
  if 0 < unit ∧ unit < 0x80 then [UInt8.ofNat unit]
  else if unit < 0x800 then [UInt8.ofNat (0xC0 + unit / 64), UInt8.ofNat (0x80 + unit % 64)]
  else
    [UInt8.ofNat (0xE0 + unit / 4096), UInt8.ofNat (0x80 + unit / 64 % 64),
      UInt8.ofNat (0x80 + unit % 64)]

/-- The bytes of a text. -/
def encode (text : String) : List UInt8 :=
  (text.toList.flatMap unitsOfChar).flatMap bytesOfUnit

/-! ### Decoding -/

/-- Whether a byte is a unit of its own. -/
def isPlain (byte : UInt8) : Bool :=
  0 < byte.toNat && byte.toNat < 0x80

/-- Whether a byte continues a unit. -/
def isContinuation (byte : UInt8) : Bool :=
  0x80 ≤ byte.toNat && byte.toNat < 0xC0

/-- Whether a byte starts a unit of two bytes. -/
def leadsTwo (byte : UInt8) : Bool :=
  0xC0 ≤ byte.toNat && byte.toNat < 0xE0

/-- Whether a byte starts a unit of three bytes. -/
def leadsThree (byte : UInt8) : Bool :=
  0xE0 ≤ byte.toNat && byte.toNat < 0xF0

/-- The unit of two bytes. -/
def unitOfTwo (lead second : UInt8) : Nat :=
  (lead.toNat - 0xC0) * 64 + (second.toNat - 0x80)

/-- The unit of three bytes. -/
def unitOfThree (lead second third : UInt8) : Nat :=
  (lead.toNat - 0xE0) * 4096 + (second.toNat - 0x80) * 64 + (third.toNat - 0x80)

/-- The units of bytes that start at a position, after the units found before them (latest first). -/
def unitsFrom (position : Nat) (found : List Nat) : List UInt8 → Except Fault (List Nat)
  | [] => .ok found.reverse
  | lead :: rest =>
    if isPlain lead then unitsFrom (position + 1) (lead.toNat :: found) rest
    else if leadsTwo lead then
      match rest with
      | [] => .error (.badContinuation (position + 1))
      | second :: rest =>
        if isContinuation second then
          unitsFrom (position + 2) (unitOfTwo lead second :: found) rest
        else .error (.badContinuation (position + 1))
    else if leadsThree lead then
      match rest with
      | [] => .error (.badContinuation (position + 1))
      | [second] =>
        .error (.badContinuation (if isContinuation second then position + 2 else position + 1))
      | second :: third :: rest =>
        if !isContinuation second then .error (.badContinuation (position + 1))
        else if !isContinuation third then .error (.badContinuation (position + 2))
        else unitsFrom (position + 3) (unitOfThree lead second third :: found) rest
    else .error (.badLead lead position)

/-- The units of bytes. -/
def unitsOfBytes (bytes : List UInt8) : Except Fault (List Nat) :=
  unitsFrom 0 [] bytes

/-- Whether a unit is the first half of a surrogate pair. -/
def isHighSurrogate (unit : Nat) : Bool :=
  0xD800 ≤ unit && unit < 0xDC00

/-- Whether a unit is the second half of a surrogate pair. -/
def isLowSurrogate (unit : Nat) : Bool :=
  0xDC00 ≤ unit && unit < 0xE000

/-- The character of a surrogate pair. -/
def charOfPair (high low : Nat) : Char :=
  Char.ofNat (0x10000 + (high - 0xD800) * 0x400 + (low - 0xDC00))

/-- The characters of units, after the characters found before them (latest first). -/
def charsFrom (found : List Char) : List Nat → Except Fault (List Char)
  | [] => .ok found.reverse
  | unit :: rest =>
    if isLowSurrogate unit then .error .loneSurrogate
    else if isHighSurrogate unit then
      match rest with
      | [] => .error .loneSurrogate
      | low :: rest =>
        if isLowSurrogate low then charsFrom (charOfPair unit low :: found) rest
        else .error .loneSurrogate
    else charsFrom (Char.ofNat unit :: found) rest

/-- The characters of units; the halves of surrogate pairs must stand together. -/
def charsOfUnits (units : List Nat) : Except Fault (List Char) :=
  charsFrom [] units

/-- The text of bytes. Most names are plain bytes throughout and need no units. -/
def decode (bytes : List UInt8) : Except Fault String :=
  if bytes.all isPlain then .ok (String.ofList (bytes.map fun byte => Char.ofNat byte.toNat))
  else do
    let units ← unitsOfBytes bytes
    let chars ← charsOfUnits units
    return String.ofList chars

end JarRename.Text
