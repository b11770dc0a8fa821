/-!
**White space, lines and words.**

Texts are handled as lists of characters. White space is the `White_Space` property of Unicode, a
line ends at a line feed (with at most one carriage return in front of it), and a word is a maximal
run without white space.

* `pieces`: a text cut at every character of a class;
* `lines`, `words`: the lines and the words of a text;
* `trimStart`, `trimEnd`, `trim`: a text without white space at its ends.
-/

namespace JarRename.Text

/-- The characters with the Unicode property `White_Space`. -/
def isBlank (c : Char) : Bool :=
  let n := c.toNat
  (9 ≤ n && n ≤ 13) || n == 0x20 || n == 0x85 || n == 0xA0 || n == 0x1680 ||
    (0x2000 ≤ n && n ≤ 0x200A) || n == 0x2028 || n == 0x2029 || n == 0x202F || n == 0x205F ||
    n == 0x3000

/-- A text without the white space at its start. -/
def trimStart (text : List Char) : List Char :=
  text.dropWhile isBlank

/-- A text without the white space at its end. -/
def trimEnd (text : List Char) : List Char :=
  (text.reverse.dropWhile isBlank).reverse

/-- A text without the white space at both ends. -/
def trim (text : List Char) : List Char :=
  trimEnd (trimStart text)

/-- The first piece of a text cut at the characters of a class, and the pieces after it. -/
def cut (isCut : Char → Bool) (text : List Char) : List Char × List (List Char) :=
  text.foldr
    (fun c (first, later) => if isCut c then ([], first :: later) else (c :: first, later))
    ([], [])

/-- The pieces of a text between the characters of a class, one more than there are cuts. -/
def pieces (isCut : Char → Bool) (text : List Char) : List (List Char) :=
  let (first, later) := cut isCut text
  first :: later

/-- A line without one carriage return at its end. -/
def dropCarriageReturn (line : List Char) : List Char :=
  if line.getLast? = some '\r' then line.dropLast else line

/-- The lines of a text. What follows the last line feed is a line unless it is empty, and keeps a
carriage return. -/
def lines (text : List Char) : List (List Char) :=
  let all := pieces (· == '\n') text
  let ended := all.dropLast.map dropCarriageReturn
  match all.getLast? with
  | none | some [] => ended
  | some rest => ended ++ [rest]

/-- The words of a text, separated by white space. -/
def words (text : List Char) : List (List Char) :=
  (pieces isBlank text).filter (fun word => !word.isEmpty)

/-- What follows the last occurrence of a character, or the whole text if there is none. -/
def afterLast (mark : Char) (text : List Char) : List Char :=
  (text.reverse.takeWhile (· != mark)).reverse

/-- The texts before and after the last occurrence of a character. -/
def splitLast? (mark : Char) (text : List Char) : Option (List Char × List Char) :=
  match text.reverse.dropWhile (· != mark) with
  | [] => none
  | _ :: before => some (before.reverse, afterLast mark text)

/-- Whether a word occurs in a text. -/
def occursIn (word : List Char) : List Char → Bool
  | [] => word.isEmpty
  | c :: rest => word.isPrefixOf (c :: rest) || occursIn word rest

/-- A text without a given start, if it starts so. -/
def dropStart? : List Char → List Char → Option (List Char)
  | [], text => some text
  | _ :: _, [] => none
  | c :: start, d :: text => if c = d then dropStart? start text else none

/-- A text without a given end, if it ends so. -/
def dropEnd? (ending text : List Char) : Option (List Char) :=
  (dropStart? ending.reverse text.reverse).map List.reverse

end JarRename.Text
