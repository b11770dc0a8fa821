/-!
**Hexadecimal numerals.**

Lower-case numerals with the mark `0x`, padded with zeros to a least number of digits.
-/

namespace JarRename.Text

/-- The lower-case hexadecimal digits of a number. -/
def hexDigits (n : Nat) : List Char :=
  Nat.toDigits 16 n

/-- A number in hexadecimal with at least `width` digits after the mark `0x`. -/
def hex (width n : Nat) : String :=
  let digits := hexDigits n
  String.ofList ('0' :: 'x' :: (List.replicate (width - digits.length) '0' ++ digits))

end JarRename.Text
