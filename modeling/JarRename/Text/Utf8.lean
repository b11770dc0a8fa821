import JarRename.Bytes.Word

/-!
**Text in bytes that may be broken.**

A reader of UTF-8 that takes any bytes. Where a character breaks off, the bytes of it that fit stand for one
replacement character, and a byte that cannot start a character stands for one of its own.

* `Text.Lead`: what the first byte of a character says of the others;
* `Text.readLoosely`: the text of bytes.
-/

namespace JarRename.Text

/-- What the first byte of a character says: its part of the character, how many bytes follow, and the range of
the first of them. -/
structure Lead where
  part : Nat
  count : Nat
  least : Nat := 0x80
  greatest : Nat := 0xBF
  deriving DecidableEq

/-- What a byte says as the first one of a character. The ranges keep out longer forms than needed, halves of
surrogate pairs and numbers beyond the last character. -/
def Lead.of? (byte : UInt8) : Option Lead :=
  let n := byte.toNat
  if n < 0x80 then some { part := n, count := 0 }
  else if n < 0xC2 then none
  else if n < 0xE0 then some { part := n - 0xC0, count := 1 }
  else if n = 0xE0 then some { part := 0, count := 2, least := 0xA0 }
  else if n = 0xED then some { part := 0xD, count := 2, greatest := 0x9F }
  else if n < 0xF0 then some { part := n - 0xE0, count := 2 }
  else if n = 0xF0 then some { part := 0, count := 3, least := 0x90 }
  else if n < 0xF4 then some { part := n - 0xF0, count := 3 }
  else if n = 0xF4 then some { part := 4, count := 3, greatest := 0x8F }
  else none

/-- The bytes at the front that go on with a character: at most `count`, the first of them in a range. -/
def followers (least greatest : Nat) : Nat → Bytes → Bytes
  | 0, _ => []
  | _ + 1, [] => []
  | count + 1, byte :: rest =>
    if least ≤ byte.toNat ∧ byte.toNat ≤ greatest then byte :: followers 0x80 0xBF count rest else []

/-- The character that stands for broken ones. -/
def replacement : Char := Char.ofNat 0xFFFD

/-- The text of bytes. -/
def readLoosely : Bytes → List Char
  | [] => []
  | byte :: rest =>
    match Lead.of? byte with
    | none => replacement :: readLoosely rest
    | some lead =>
      let found := followers lead.least lead.greatest lead.count rest
      let value := found.foldl (fun value byte => value * 64 + (byte.toNat - 0x80)) lead.part
      (if found.length = lead.count then Char.ofNat value else replacement) ::
        readLoosely (rest.drop found.length)
termination_by bytes => bytes.length
decreasing_by
  · simp only [List.length_cons]; omega
  · simp only [List.length_cons, List.length_drop]; omega

end JarRename.Text
