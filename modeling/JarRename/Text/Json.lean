import JarRename.Text.Decimal

/-!
**JSON values.**

A reader of the values that stand in the headers of mappings. Values nest to a fixed depth, and numbers stay in
the range of floating point numbers.

* `Literal`: strings, which know how they are written;
* `Json`: the values, of which only natural numbers keep their value;
* `Json.parse?`: the value of a text.
-/

namespace JarRename.Text

/-- A string of a JSON text, and whether it is written without escapes. -/
structure Literal where
  text : List Char
  isPlain : Bool
  deriving DecidableEq

/-- A JSON value. -/
inductive Json where
  | null
  | bool (value : Bool)
  /-- A number of 64 bits that is written without a sign, a point and an exponent. -/
  | natural (value : Nat)
  /-- Any other number. -/
  | number
  | string (literal : Literal)
  | array (values : List Json)
  | object (fields : List (Literal × Json))

namespace Json

/-- A reader of values, which leaves the rest of the text. -/
abbrev Scan (α : Type) := StateT (List Char) Option α

/-- Whether a character is white space between values. -/
def isSpace (c : Char) : Bool :=
  c == ' ' || c == '\t' || c == '\n' || c == '\r'

/-- The next character. -/
def next : Scan Char := fun text =>
  match text with
  | [] => none
  | c :: rest => some (c, rest)

/-- The next character after white space, which stays. -/
def peek : Scan Char := fun text =>
  match text.dropWhile isSpace with
  | [] => none
  | c :: rest => some (c, c :: rest)

/-- A given word. -/
def expect : List Char → Scan Unit
  | [] => pure ()
  | c :: rest => do
    if (← next) = c then expect rest else failure

/-! ### Strings -/

/-- The value of a hexadecimal digit. -/
def hexValue? (c : Char) : Option Nat :=
  let n := c.toNat
  if 48 ≤ n ∧ n ≤ 57 then some (n - 48)
  else if 97 ≤ n ∧ n ≤ 102 then some (n - 87)
  else if 65 ≤ n ∧ n ≤ 70 then some (n - 55)
  else none

/-- Four hexadecimal digits. -/
def unit : Scan Nat := do
  let a ← hexValue? (← next)
  let b ← hexValue? (← next)
  let c ← hexValue? (← next)
  let d ← hexValue? (← next)
  return ((a * 16 + b) * 16 + c) * 16 + d

/-- A character given by one UTF-16 unit or by two. -/
def unicodeEscape : Scan Char := do
  let first ← unit
  if 0xDC00 ≤ first ∧ first < 0xE000 then failure
  else if 0xD800 ≤ first ∧ first < 0xDC00 then
    expect ['\\', 'u']
    let second ← unit
    if 0xDC00 ≤ second ∧ second < 0xE000 then
      return Char.ofNat (0x10000 + (first - 0xD800) * 0x400 + (second - 0xDC00))
    else failure
  else return Char.ofNat first

/-- The character that an escape stands for. -/
def escaped : Scan Char := do
  let c ← next
  if c = '"' || c = '\\' || c = '/' then return c
  else if c = 'b' then return Char.ofNat 8
  else if c = 'f' then return Char.ofNat 12
  else if c = 'n' then return '\n'
  else if c = 'r' then return '\r'
  else if c = 't' then return '\t'
  else if c = 'u' then unicodeEscape
  else failure

/-- The rest of a string of at most `limit` characters, after those found before it (latest first). -/
def stringRest (found : List Char) (isPlain : Bool) : Nat → Scan Literal
  | 0 => failure
  | limit + 1 => do
    let c ← next
    if c = '"' then return { text := found.reverse, isPlain }
    else if c = '\\' then
      let c ← escaped
      stringRest (c :: found) false limit
    else if c.toNat < 0x20 then failure
    else stringRest (c :: found) isPlain limit

/-- A string. Every character of it takes one of the text. -/
def readString : Scan Literal := fun text =>
  (do expect ['"']; stringRest [] true text.length : Scan Literal) text

/-! ### Numbers -/

/-- At least one digit. -/
def digits : Scan (List Char) := fun text =>
  let found := text.takeWhile Char.isDigit
  if found.isEmpty then none else some (found, text.dropWhile Char.isDigit)

/-- Whether the next character is one of some, which is then taken. -/
def optional (marks : List Char) : Scan Bool := fun text =>
  match text with
  | c :: rest => if marks.contains c then some (true, rest) else some (false, text)
  | [] => some (false, [])

/-- The digits before the point. No zero stands in front of others. -/
def wholeDigits : Scan (List Char) := do
  if ← optional ['0'] then return ['0'] else digits

/-- The point and the digits after it, if there are any. -/
def fractionDigits : Scan (List Char) := do
  if ← optional ['.'] then digits else return []

/-- The exponent, if there is one. -/
def exponent? : Scan (Option Int) := do
  if ← optional ['e', 'E'] then
    let isNegative ← optional ['-']
    let _ ← if isNegative then pure false else optional ['+']
    let size := Int.ofNat (Decimal.numberOf (← digits))
    return some (if isNegative then -size else size)
  else return none

/-- A number in the range of floating point numbers. -/
def numeral : Scan Json := do
  let isNegative ← optional ['-']
  let whole ← wholeDigits
  let fraction ← fractionDigits
  let exponent ← exponent?
  let value := Decimal.ofDigits whole fraction (exponent.getD 0)
  if !value.isFinite then failure
  else if isNegative || !fraction.isEmpty || exponent.isSome || value.exponent ≠ 0 then return .number
  else return .natural value.significand

/-! ### Values -/

/-- The rest of the items of a list of at most `limit` items, up to the closing bracket, after those found
before it (latest first). -/
def itemsRest {α : Type} (item : Scan α) (closing : Char) (found : List α) : Nat → Scan (List α)
  | 0 => failure
  | limit + 1 => do
    let value ← item
    let c ← peek
    let _ ← next
    if c = ',' then itemsRest item closing (value :: found) limit
    else if c = closing then return (value :: found).reverse
    else failure

/-- The items of a list between brackets. Every item takes a character. -/
def items {α : Type} (item : Scan α) (opening closing : Char) : Scan (List α) := do
  expect [opening]
  if (← peek) = closing then
    expect [closing]
    return []
  else fun text => itemsRest item closing [] text.length text

/-- A field of an object whose values are read by `value`. -/
def field (value : Scan Json) : Scan (Literal × Json) := do
  let _ ← peek
  let key ← readString
  let _ ← peek
  expect [':']
  return (key, ← value)

/-- A value without others in it. -/
def plainValue (start : Char) : Scan Json := do
  if start = '"' then return .string (← readString)
  else if start = '-' || start.isDigit then numeral
  else if start = 't' then
    expect "true".toList
    return .bool true
  else if start = 'f' then
    expect "false".toList
    return .bool false
  else if start = 'n' then
    expect "null".toList
    return .null
  else failure

/-- A value with at most `depth` brackets around what stands in it. -/
def valueAt : Nat → Scan Json
  | 0 => do plainValue (← peek)
  | depth + 1 => do
    let c ← peek
    if c = '[' then return .array (← items (valueAt depth) '[' ']')
    else if c = '\x7b' then return .object (← items (field (valueAt depth)) '\x7b' '\x7d')
    else plainValue c

/-- How deep values nest. -/
def maxDepth : Nat := 127

/-- The value of a text. -/
def parse? (text : List Char) : Option Json := do
  let (value, rest) ← valueAt maxDepth text
  if rest.all isSpace then return value else failure

end Json

end JarRename.Text
