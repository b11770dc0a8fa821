import JarRename.Mapping.Entry
import JarRename.Text.Blank
import JarRename.Text.Json

/-!
**The records of ProGuard mappings.**

A mapping of this format is a sequence of records: headers after `#`, classes at the margin and members
after white space. A record ends with a line, except that the one of a class ends with its colon. Records
are numbered, not lines.

* `Mapping.Record`: the records;
* `Mapping.Record.read?`: the record at the front of a text;
* `Mapping.Record.parse`: all records of a text.
-/

namespace JarRename.Mapping

/-- A record of a mapping from readable to obfuscated names. -/
inductive Record where
  /-- A comment, or facts about the compiler and the source. -/
  | header
  | ofClass (readable obfuscated : List Char)
  | ofField (readable obfuscated : List Char)
  /-- A method, with its result type, the owner in front of its name and its argument types. -/
  | ofMethod (result : List Char) (owner : Option (List Char)) (readable arguments obfuscated : List Char)
  deriving DecidableEq

namespace Record

/-- A reader of records, which leaves the rest of the text. -/
abbrev Scan (α : Type) := StateT (List Char) Option α

/-- Whether a character ends a line. -/
def isLineEnd (c : Char) : Bool :=
  c == '\n' || c == '\r'

/-- Whether a character is white space around records. -/
def isSpace (c : Char) : Bool :=
  c == ' ' || c == '\t' || isLineEnd c || c.toNat == 12

/-- Leaves out the characters of a class. -/
def skip (isSkipped : Char → Bool) : Scan Unit := fun text =>
  some ((), text.dropWhile isSkipped)

/-- The rest of the line. -/
def restOfLine : Scan (List Char) := fun text =>
  some (text.takeWhile fun c => !isLineEnd c, text.dropWhile fun c => !isLineEnd c)

/-- The characters up to one that stops them or to the end of the text, all of them in one line. -/
def upTo (stops : Char → Bool) : Scan (List Char) := fun text =>
  let goesOn := fun c => !stops c && !isLineEnd c
  let rest := text.dropWhile goesOn
  if rest.head?.any isLineEnd then none else some (text.takeWhile goesOn, rest)

/-- A given word. -/
def expect (word : List Char) : Scan Unit := fun text =>
  (Text.dropStart? word text).map ((), ·)

/-- The arrow between two names. -/
def arrow : Scan Unit := expect " -> ".toList

/-- Whether the next character is the given one. -/
def startsWith (c : Char) : Scan Bool := fun text =>
  some (text.head? == some c, text)

/-- The least number that does not fit into 64 bits. -/
def numberLimit : Nat := 18446744073709551616

/-- A decimal number that fits into 64 bits. -/
def number : Scan Unit := fun text =>
  let digits := text.takeWhile Char.isDigit
  let value := digits.foldl (fun value c => value * 10 + (c.toNat - 48)) 0
  if digits.isEmpty || numberLimit ≤ value then none else some ((), text.dropWhile Char.isDigit)

/-- Whether a number comes next, which is then taken. -/
def optionalNumber : Scan Bool := fun text =>
  match number text with
  | some (_, rest) => some (true, rest)
  | none => some (false, text)

/-- The values of the fields of a name in an object. -/
def valuesOf (key : String) (fields : List (Text.Literal × Text.Json)) : List Text.Json :=
  (fields.filter (·.1.text == key.toList)).map (·.2)

/-- Whether a value is a string written without escapes. -/
def isPlainString : Text.Json → Bool
  | .string literal => literal.isPlain
  | _ => false

/-- Whether a value is a list of strings written without escapes. -/
def arePlainStrings : Text.Json → Bool
  | .array values => values.all isPlainString
  | _ => false

/-- Whether a value is a natural number. -/
def isNatural : Text.Json → Bool
  | .natural _ => true
  | _ => false

/-- Whether a value is an object of natural numbers, by names written without escapes. -/
def areNaturals : Text.Json → Bool
  | .object fields => fields.all fun (key, value) => key.isPlain && isNatural value
  | _ => false

/-- Whether a value is a string written without escapes, or stands for none. -/
def isPlainStringOrNull : Text.Json → Bool
  | .null => true
  | json => isPlainString json

/-- A field of headers: its name, whether it must be there, and what its value must be. -/
structure HeaderField where
  name : String
  isRequired : Bool
  isKind : Text.Json → Bool

/-- Whether an object has a field as it must be. No field stands twice. -/
def HeaderField.holds (field : HeaderField) (fields : List (Text.Literal × Text.Json)) : Bool :=
  match valuesOf field.name fields with
  | [] => !field.isRequired
  | [value] => field.isKind value
  | _ => false

/-- The fields of the headers of an `id`. All other fields are free. -/
def headerFields (id : String) : List HeaderField :=
  if id = "sourceFile" then [⟨"fileName", true, isPlainString⟩]
  else if id = "com.android.tools.r8.rewriteFrame" then
    [⟨"conditions", true, arePlainStrings⟩, ⟨"actions", true, arePlainStrings⟩]
  else if id = "com.android.tools.r8.outlineCallsite" then
    [⟨"positions", true, areNaturals⟩, ⟨"outline", false, isPlainStringOrNull⟩]
  else []

/-- Whether a header in JSON is well formed: an object with a text as its `id`, and with the fields that
belong to the `id`. -/
def isHeader (json : Text.Json) : Bool :=
  match json with
  | .object fields =>
    match valuesOf "id" fields with
    | [.string id] => (headerFields (String.ofList id.text)).all fun field => field.holds fields
    | _ => false
  | _ => false

/-- A header after its mark. -/
def headerRest : Scan Record := do
  skip isSpace
  if ← startsWith '\x7b' then
    let line ← restOfLine
    let json ← Text.Json.parse? line
    if isHeader json then return header else failure
  else
    let _ ← restOfLine
    return header

/-- A class. -/
def classRecord : Scan Record := do
  let readable ← upTo (· == ' ')
  arrow
  let obfuscated ← upTo (· == ':')
  expect [':']
  return ofClass readable obfuscated

/-- The range of lines in front of a member, if there is one. -/
def lineRange : Scan Unit := do
  if ← optionalNumber then
    expect [':']
    number
    expect [':']

/-- The number of a line after a method, if there is one. -/
def lineAfter : Scan Unit := do
  if ← startsWith ':' then
    expect [':']
    number

/-- A field or a method. -/
def memberRecord : Scan Record := do
  skip isSpace
  lineRange
  let type ← upTo (· == ' ')
  expect [' ']
  let name ← upTo fun c => c == ' ' || c == '('
  if ← startsWith '(' then
    expect ['(']
    let arguments ← upTo (· == ')')
    expect [')']
    lineAfter
    lineAfter
    arrow
    let obfuscated ← restOfLine
    match Text.splitLast? '.' name with
    | some (owner, name) => return ofMethod type (some owner) name arguments obfuscated
    | none => return ofMethod type none name arguments obfuscated
  else
    arrow
    let obfuscated ← restOfLine
    return ofField name obfuscated

/-- The record at the front of a text, with the line ends around it. -/
def read? (text : List Char) : Option (Record × List Char) := do
  let text := text.dropWhile isLineEnd
  let (record, rest) ←
    match text.dropWhile isSpace with
    | '#' :: rest => headerRest rest
    | _ =>
      match text with
      | ' ' :: _ | '\t' :: _ => memberRecord text
      | _ => classRecord text
  return (record, rest.dropWhile isLineEnd)

/-- At most `limit` records of a text after those found before them (latest first). -/
def parseUpTo (found : List Record) (text : List Char) : Nat → Except MappingError (List Record)
  | 0 => .ok found.reverse
  | limit + 1 =>
    if text.isEmpty then .ok found.reverse
    else
      match read? text with
      | some (record, rest) => parseUpTo (record :: found) rest limit
      | none => .error { line := found.length + 1, cause := .badRecord }

/-- All records of a text. Every record takes a character. -/
def parse (text : String) : Except MappingError (List Record) :=
  parseUpTo [] text.toList (text.length + 1)

end Record

end JarRename.Mapping
