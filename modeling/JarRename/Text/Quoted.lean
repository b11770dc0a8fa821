import JarRename.Text.Unprintable
import JarRename.Text.Hex

/-!
**Quoted text.**

Messages quote the texts they are about. A quoted text stands between quotes; the backslash, the
enclosing quote, tabs, line ends and the null character have short escapes, and every character
without a glyph of its own is written by its number.
-/

namespace JarRename.Text

/-- A character as it stands inside text that is enclosed by `quote`. -/
def escape (quote c : Char) : List Char :=
  if c = quote || c = '\\' then ['\\', c]
  else if c = '\t' then ['\\', 't']
  else if c = '\n' then ['\\', 'n']
  else if c = '\r' then ['\\', 'r']
  else if c.toNat = 0 then ['\\', '0']
  else if isUnprintable c then ['\\', 'u', '\x7b'] ++ hexDigits c.toNat ++ ['\x7d']
  else [c]

/-- A text in double quotes. -/
def quoted (text : String) : String :=
  String.ofList ('"' :: (text.toList.flatMap (escape '"') ++ ['"']))

/-- The single quote. -/
def apostrophe : Char := Char.ofNat 39

/-- A character in single quotes. -/
def quotedChar (c : Char) : String :=
  String.ofList (apostrophe :: (escape apostrophe c ++ [apostrophe]))

end JarRename.Text
