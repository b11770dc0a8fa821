import JarRename.Fault

/-!
**Descriptors.**

A field descriptor is a type: a base type, a class or an array. A method descriptor is a list of
parameter types in parentheses and a result type. `V` counts as a base type wherever a type can stand.

* `FieldType`, `MethodType`: the types, with `parse`, `toText` and `rename`;
* `Descriptor.rename`: the classes of a descriptor renamed, of whichever sort it is.

A class renaming is a function that answers `none` for the classes that keep their name.
-/

namespace JarRename

/-- The types without a class. -/
inductive BaseType where
  | boolean
  | char
  | float
  | double
  | byte
  | short
  | int
  | long
  | void
  deriving DecidableEq

namespace BaseType

/-- The letter of a base type. -/
def letter : BaseType → Char
  | boolean => 'Z'
  | char => 'C'
  | float => 'F'
  | double => 'D'
  | byte => 'B'
  | short => 'S'
  | int => 'I'
  | long => 'J'
  | void => 'V'

/-- The base type of a letter. -/
def ofLetter? (c : Char) : Option BaseType :=
  if c = 'B' then some byte
  else if c = 'C' then some char
  else if c = 'D' then some double
  else if c = 'F' then some float
  else if c = 'I' then some int
  else if c = 'J' then some long
  else if c = 'S' then some short
  else if c = 'Z' then some boolean
  else if c = 'V' then some void
  else none

theorem ofLetter?_letter (base : BaseType) : ofLetter? base.letter = some base := by
  cases base <;> rfl

end BaseType

/-- The type of a field, a parameter or a result. -/
inductive FieldType where
  | base (type : BaseType)
  | object (className : String)
  | array (element : FieldType)
  deriving DecidableEq

/-- The parameters and the result of a method. -/
structure MethodType where
  /-- The types of the parameters, in order. -/
  parameters : List FieldType
  /-- The type of the result. -/
  result : FieldType
  deriving DecidableEq

/-- The new name of a class: the answer of a class renaming, or the name itself. -/
def renameOrKeep (rename : String → Option String) (name : String) : String :=
  (rename name).getD name

namespace FieldType

/-- The characters of a type. -/
def chars : FieldType → List Char
  | base type => [type.letter]
  | object className => 'L' :: (className.toList ++ [';'])
  | array element => '[' :: chars element

/-- The text of a type. -/
def toText (type : FieldType) : String :=
  String.ofList type.chars

/-- The type with its class renamed. -/
def rename (rename : String → Option String) : FieldType → FieldType
  | base type => base type
  | object className => object (renameOrKeep rename className)
  | array element => array (FieldType.rename rename element)

/-- The class name at the front of a text, up to its semicolon, and the text after it. -/
def readClassName (text : List Char) : Except Fault (String × List Char) :=
  let name := text.takeWhile (· != ';')
  match text.dropWhile (· != ';') with
  | [] => .error (.openClassName (String.ofList name))
  | _ :: rest =>
    if name.isEmpty then .error .emptyClassName else .ok (String.ofList name, rest)

/-- The type at the front of a text, and the text after it. -/
def read : List Char → Except Fault (FieldType × List Char)
  | [] => .error .noType
  | c :: rest =>
    match BaseType.ofLetter? c with
    | some type => .ok (base type, rest)
    | none =>
      if c = '[' then
        match read rest with
        | .ok (element, rest) => .ok (array element, rest)
        | .error cause => .error cause
      else if c = 'L' then
        match readClassName rest with
        | .ok (name, rest) => .ok (object name, rest)
        | .error cause => .error cause
      else .error (.unknownType c)

/-- The type that a text stands for. -/
def parse (text : String) : Except Fault FieldType := do
  let (type, rest) ← read text.toList
  if rest.isEmpty then return type else throw (.trailing text)

theorem length_of_readClassName {text rest : List Char} {name : String}
    (done : readClassName text = .ok (name, rest)) : rest.length < text.length := by
  unfold readClassName at done
  have shorter : (text.dropWhile (· != ';')).length ≤ text.length :=
    (List.dropWhile_sublist _).length_le
  split at done
  · cases done
  · next after found =>
    rw [found] at shorter
    simp only [List.length_cons] at shorter
    dsimp only at done
    split at done
    · cases done
    · cases done
      omega

/-- Reading a type takes at least one character. -/
theorem length_of_read {text rest : List Char} {type : FieldType}
    (done : read text = .ok (type, rest)) : rest.length < text.length := by
  induction text generalizing type rest with
  | nil => cases done
  | cons c tail ih =>
    unfold read at done
    split at done
    · cases done
      simp
    · split at done
      · split at done
        · next found =>
          cases done
          have := ih found
          simp only [List.length_cons]
          omega
        · cases done
      · split at done
        · split at done
          · next found =>
            cases done
            have := length_of_readClassName found
            simp only [List.length_cons]
            omega
          · cases done
        · cases done

end FieldType

namespace MethodType

/-- The characters of a method type. -/
def chars (type : MethodType) : List Char :=
  '(' :: (type.parameters.flatMap FieldType.chars ++ ')' :: type.result.chars)

/-- The text of a method type. -/
def toText (type : MethodType) : String :=
  String.ofList type.chars

/-- The method type with its classes renamed. -/
def rename (rename : String → Option String) (type : MethodType) : MethodType where
  parameters := type.parameters.map (FieldType.rename rename)
  result := type.result.rename rename

/-- The parameters at the front of a text after those found before them (latest first), up to the
closing parenthesis, and the text after it. -/
def readParameters (whole : String) (found : List FieldType) (text : List Char) :
    Except Fault (List FieldType × List Char) :=
  match text with
  | [] => .error (.notClosed whole)
  | c :: rest =>
    if c = ')' then .ok (found.reverse, rest)
    else
      match _done : FieldType.read (c :: rest) with
      | .error cause => .error cause
      | .ok (type, rest) => readParameters whole (type :: found) rest
termination_by text.length
decreasing_by exact FieldType.length_of_read _done

/-- The method type that a text stands for. -/
def parse (text : String) : Except Fault MethodType :=
  match text.toList with
  | '(' :: rest => do
    let (parameters, rest) ← readParameters text [] rest
    let (result, rest) ← FieldType.read rest
    if rest.isEmpty then return { parameters, result } else throw (.trailing text)
  | _ => .error (.notOpened text)

end MethodType

namespace Descriptor

/-- Whether a descriptor is that of a method. -/
def isMethod (descriptor : String) : Bool :=
  descriptor.toList.head? == some '('

/-- The text of a descriptor with its classes renamed. -/
def rename (rename : String → Option String) (descriptor : String) : Except Fault String :=
  if isMethod descriptor then do
    return ((← MethodType.parse descriptor).rename rename).toText
  else do
    return ((← FieldType.parse descriptor).rename rename).toText

end Descriptor

end JarRename
