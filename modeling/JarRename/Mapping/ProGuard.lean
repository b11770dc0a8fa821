import JarRename.Mapping.Lines
import JarRename.Mapping.Record
import Std.Data.HashMap

/-!
**ProGuard mappings.**

The records of such a mapping go from readable to obfuscated names, and their entries go the other way:
the obfuscated names are the old ones. Types are written as in source code with readable names, and become
descriptors with the obfuscated names of the classes that the mapping lists, wherever it lists them.

* `Mapping.TypeNames`: the obfuscated name of each listed class;
* `Mapping.typeDescriptor`, `Mapping.methodDescriptor`: the descriptors of types in source form;
* `Mapping.parseProGuard`: the numbered entries of a text.
-/

namespace JarRename.Mapping

/-- The obfuscated names of classes by their readable ones, both in internal form. -/
abbrev TypeNames := Std.HashMap String String

/-- A dotted class name in internal form. -/
def internalName (name : List Char) : String :=
  String.ofList (name.map fun c => if c = '.' then '/' else c)

/-- How many pairs of brackets end a type, and the type without them; the type is given backwards. -/
def stripBrackets : List Char → Nat × List Char
  | ']' :: '[' :: rest =>
    let (count, element) := stripBrackets rest
    (count + 1, element)
  | element => (0, element)

/-- The descriptor of a type in source form without brackets. -/
def elementDescriptor (names : TypeNames) (element : List Char) : List Char :=
  match String.ofList element with
  | "boolean" => ['Z']
  | "byte" => ['B']
  | "char" => ['C']
  | "short" => ['S']
  | "int" => ['I']
  | "long" => ['J']
  | "float" => ['F']
  | "double" => ['D']
  | "void" => ['V']
  | _ =>
    let name := internalName element
    'L' :: ((names.getD name name).toList ++ [';'])

/-- The descriptor of a type in source form. -/
def typeDescriptor (names : TypeNames) (type : List Char) : List Char :=
  let (count, element) := stripBrackets (Text.trim type).reverse
  List.replicate count '[' ++ elementDescriptor names element.reverse

/-- The descriptor of a method with argument types separated by commas. -/
def methodDescriptor (names : TypeNames) (arguments result : List Char) : String :=
  let types := (Text.pieces (· == ',') arguments).filter fun type => !(Text.trim type).isEmpty
  String.ofList ('(' :: (types.flatMap (typeDescriptor names) ++ ')' :: typeDescriptor names result))

/-- The obfuscated names of the classes that records list; the last record of a class counts. -/
def typeNames (records : List Record) : TypeNames :=
  records.foldl
    (fun names record =>
      match record with
      | .ofClass readable obfuscated =>
        names.insert (internalName readable) (internalName obfuscated)
      | _ => names)
    {}

/-- The entry of a record after the record of the class `owner`, and the class that the records after it
belong to. Methods of other classes tell of inlined code, and initialisers keep their names. -/
def recordEntry (names : TypeNames) (owner : Option String) :
    Record → Except MappingCause (Option String × Option Entry)
  | .header => .ok (owner, none)
  | .ofClass readable obfuscated =>
    let obfuscated := internalName obfuscated
    .ok (some obfuscated, some (.ofClass obfuscated (internalName readable)))
  | .ofField readable obfuscated =>
    match owner with
    | none => .error (.recordOutsideClass .ofField)
    | some owner =>
      .ok (owner, some (.ofField owner (String.ofList obfuscated) (String.ofList readable)))
  | .ofMethod result around readable arguments obfuscated =>
    if around.isSome || readable.head? == some '<' then .ok (owner, none)
    else
      match owner with
      | none => .error (.recordOutsideClass .ofMethod)
      | some owner =>
        .ok (owner,
          some (.ofMethod owner (String.ofList obfuscated) (methodDescriptor names arguments result)
            (String.ofList readable)))

/-- The entries of numbered records after those found before them (latest first). -/
def recordEntries (names : TypeNames) (owner : Option String) (found : List Numbered) :
    List (Record × Nat) → Except MappingError (List Numbered)
  | [] => .ok found.reverse
  | (record, number) :: rest =>
    match recordEntry names owner record with
    | .error cause => .error { line := number, cause }
    | .ok (owner, none) => recordEntries names owner found rest
    | .ok (owner, some entry) => recordEntries names owner ((number, entry) :: found) rest

/-- The entries of a text of this format. -/
def parseProGuard (text : String) : Except MappingError (List Numbered) := do
  let records ← Record.parse text
  recordEntries (typeNames records) none [] (records.zipIdx 1)

end JarRename.Mapping
