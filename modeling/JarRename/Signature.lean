import JarRename.Descriptor
import JarRename.Text.Blank

/-!
**Generic signatures.**

A signature is read as a list of parts: the characters that stay as they are, and the class names. A
class nested in a generic class is written as a suffix of it, and is known by the names of all classes
around it joined with `$`.

* `Signature.Part`: the parts of a signature, with their texts under a class renaming (`render`);
* `Signature.parse`: the parts of a text. What follows a complete method signature is left out;
* `Signature.rename`: the classes of a signature renamed.
-/

namespace JarRename.Signature

/-- The parts of a signature. -/
inductive Part where
  /-- Characters that no renaming changes. -/
  | plain (text : List Char)
  /-- The name of a class. -/
  | outer (name : List Char)
  /-- The suffix for a class nested in another, with the full names of both. -/
  | inner (around full : List Char)
  deriving DecidableEq

/-- The new full name of a class. -/
def newName (rename : String → Option String) (name : List Char) : List Char :=
  (renameOrKeep rename (String.ofList name)).toList

/-- The text of a part when its class is renamed. A nested class is written without the new name of
the class around it, or by what follows the last `$` if its new name does not start so. -/
def Part.render (rename : String → Option String) : Part → List Char
  | plain text => text
  | outer name => newName rename name
  | inner around full =>
    let new := newName rename full
    (Text.dropStart? (newName rename around ++ ['$']) new).getD (Text.afterLast '$' new)

/-! ### Reading

Types nest and follow each other. Every level of nesting and every item takes a character, so the number of
characters of the whole text bounds both; the readers take this bound as `limit`. -/

/-- A reader of the characters of a signature. -/
abbrev Scan (α : Type) := StateT (List Char) (Except Fault) α

section Read

variable (whole : String) (limit : Nat)

/-- How many characters have been read when `rest` is left. -/
def positionOf (rest : List Char) : Nat :=
  whole.length - rest.length

/-- The next character, which stays. -/
def peek : Scan Char := fun text =>
  match text with
  | [] => .error (.signatureEnded whole)
  | c :: _ => .ok (c, text)

/-- A given character. -/
def expect (expected : Char) : Scan (List Part) := fun text =>
  match text with
  | [] => .error (.signatureEnded whole)
  | c :: rest =>
    if c = expected then .ok ([.plain [c]], rest)
    else .error (.signatureExpected whole expected (positionOf whole text) c)

/-- The characters in front of a character that stops them, which must come. -/
def readUntil (stops : List Char) : Scan (List Char) := fun text =>
  match text.dropWhile (fun c => !stops.contains c) with
  | [] => .error (.signatureEnded whole)
  | rest => .ok (text.takeWhile fun c => !stops.contains c, rest)

/-- Items as long as the next character lets them go on, at most a given number of them. -/
def items (goesOn : Scan Bool) (item : Scan (List Part)) : Nat → Scan (List Part)
  | 0 => pure []
  | limit + 1 => do
    if ← goesOn then
      let first ← item
      let later ← items goesOn item limit
      return first ++ later
    else return []

/-- Whether the next character, which must come, is not the given one. -/
def before (stop : Char) : Scan Bool := do
  return (← peek whole) != stop

/-- Whether the next character is the given one. -/
def next (c : Char) : Scan Bool := fun text =>
  .ok (text.head? == some c, text)

/-- Whether a character is left. -/
def more : Scan Bool := fun text =>
  .ok (!text.isEmpty, text)

/-- One type argument, in which types are read by `type`. -/
def typeArgument (type : Scan (List Part)) : Scan (List Part) := do
  let c ← peek whole
  if c = '*' then expect whole '*'
  else if c = '+' || c = '-' then
    let mark ← expect whole c
    return mark ++ (← type)
  else type

/-- The type arguments of a class, if it has any. -/
def typeArguments (type : Scan (List Part)) : Scan (List Part) := do
  if (← peek whole) = '<' then
    let opening ← expect whole '<'
    let arguments ← items (before whole '>') (typeArgument whole type) limit
    let closing ← expect whole '>'
    return opening ++ arguments ++ closing
  else return []

/-- The suffixes for nested classes of the class with full name `around`, at most `count` of them. -/
def suffixes (type : Scan (List Part)) : Nat → List Char → Scan (List Part)
  | 0, _ => pure []
  | count + 1, around => do
    if (← peek whole) = '.' then
      let mark ← expect whole '.'
      let name ← readUntil whole ['<', '.', ';']
      let full := around ++ '$' :: name
      let arguments ← typeArguments whole limit type
      let later ← suffixes type count full
      return mark ++ .inner around full :: (arguments ++ later)
    else return []

/-- A class with its arguments and suffixes. -/
def classType (type : Scan (List Part)) : Scan (List Part) := do
  let opening ← expect whole 'L'
  let name ← readUntil whole ['<', '.', ';']
  let arguments ← typeArguments whole limit type
  let later ← suffixes whole limit type limit name
  let closing ← expect whole ';'
  return opening ++ .outer name :: (arguments ++ later ++ closing)

/-- A type whose types are nested less than `depth` times. -/
def typeAt : Nat → Scan (List Part)
  | 0 => fun _ => .error (.signatureEnded whole)
  | depth + 1 => do
    let c ← peek whole
    if (BaseType.ofLetter? c).isSome then expect whole c
    else if c = '[' then
      let mark ← expect whole '['
      return mark ++ (← typeAt depth)
    else if c = 'T' then
      let opening ← expect whole 'T'
      let name ← readUntil whole [';']
      let closing ← expect whole ';'
      return opening ++ .plain name :: closing
    else if c = 'L' then classType whole limit (typeAt depth)
    else fun text => .error (.signatureUnexpected whole c (positionOf whole text))

/-- A type. -/
def type : Scan (List Part) :=
  typeAt whole limit (limit + 1)

/-- One type parameter with its bounds. -/
def typeParameter : Scan (List Part) := do
  let name ← readUntil whole [':']
  if name.isEmpty then fun _ => .error (.unnamedParameter whole)
  else
    let mark ← expect whole ':'
    let c ← peek whole
    let bound ← if c = 'L' || c = 'T' || c = '[' then type whole limit else pure []
    let bounds := do
      let mark ← expect whole ':'
      return mark ++ (← type whole limit)
    let interfaces ← items (next ':') bounds limit
    return .plain name :: (mark ++ bound ++ interfaces)

/-- The type parameters in front of a class or method signature, if there are any. -/
def typeParameters : Scan (List Part) := do
  if ← next '<' then
    let opening ← expect whole '<'
    let parameters ← items (before whole '>') (typeParameter whole limit) limit
    let closing ← expect whole '>'
    return opening ++ parameters ++ closing
  else return []

/-- The parameters, the result and the exceptions of a method. -/
def methodTypes : Scan (List Part) := do
  let opening ← expect whole '('
  let parameters ← items (before whole ')') (type whole limit) limit
  let closing ← expect whole ')'
  let result ← type whole limit
  let thrown := do
    let mark ← expect whole '^'
    return mark ++ (← type whole limit)
  let exceptions ← items (next '^') thrown limit
  return opening ++ parameters ++ closing ++ result ++ exceptions

/-- The parts of a class, method or field signature. -/
def parts : Scan (List Part) := do
  let parameters ← typeParameters whole limit
  if ← next '(' then
    return parameters ++ (← methodTypes whole limit)
  else
    return parameters ++ (← items more (type whole limit) limit)

end Read

/-- The parts of a text. -/
def parse (text : String) : Except Fault (List Part) := do
  let (found, _) ← parts text text.length text.toList
  return found

/-- The text of a signature with its classes renamed. -/
def rename (rename : String → Option String) (signature : String) : Except Fault String := do
  let found ← parse signature
  return String.ofList (found.flatMap (Part.render rename))

end JarRename.Signature
