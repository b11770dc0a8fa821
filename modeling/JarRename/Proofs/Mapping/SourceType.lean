import JarRename.Mapping.ProGuard
import JarRename.Proofs.Descriptor

/-!
**Types in source form.**

A type in source form is a keyword or a class, with a pair of brackets behind it for each dimension. It stands for the
type with the names of the source, and its descriptor is that of the type with the listed classes renamed.

* `Mapping.sourceType`, `Mapping.sourceMethod`: what types in source form stand for;
* `Mapping.methodDescriptor_eq`: the descriptor of a method in source form.
-/

namespace JarRename

namespace Mapping

/-! ### What a type stands for -/

/-- The type of a keyword or of a class. -/
def elementType (element : List Char) : FieldType :=
  match String.ofList element with
  | "boolean" => .base .boolean
  | "byte" => .base .byte
  | "char" => .base .char
  | "short" => .base .short
  | "int" => .base .int
  | "long" => .base .long
  | "float" => .base .float
  | "double" => .base .double
  | "void" => .base .void
  | _ => .object (internalName element)

/-- The arrays of a number of dimensions. -/
def arrayType (element : FieldType) : Nat → FieldType
  | 0 => element
  | count + 1 => .array (arrayType element count)

/-- The type in source form, with the names of the source. -/
def sourceType (type : List Char) : FieldType :=
  let (count, element) := stripBrackets (Text.trim type).reverse
  arrayType (elementType element.reverse) count

/-- The type of a method with argument types separated by commas, with the names of the source. -/
def sourceMethod (arguments result : List Char) : MethodType where
  parameters :=
    ((Text.pieces (· == ',') arguments).filter fun type => !(Text.trim type).isEmpty).map sourceType
  result := sourceType result

/-! ### Its descriptor -/

variable (names : TypeNames)

/-- The renaming of the listed classes. -/
def TypeNames.rename (name : String) : Option String :=
  names[name]?

theorem elementDescriptor_eq (element : List Char) :
    elementDescriptor names element = ((elementType element).rename names.rename).chars := by
  unfold elementDescriptor elementType
  -- both definitions ask for the same keywords
  generalize String.ofList element = word
  split
  case h_10 =>
    have known (name : String) : names.getD name name = renameOrKeep names.rename name :=
      Std.HashMap.getD_eq_getD_getElem?
    simp [*, FieldType.rename, FieldType.chars]
  all_goals rfl

theorem chars_arrayType (rename : String → Option String) (element : FieldType) (count : Nat) :
    ((arrayType element count).rename rename).chars = List.replicate count '[' ++ (element.rename rename).chars := by
  induction count with
  | zero => rfl
  | succ count ih => rw [arrayType, FieldType.rename, FieldType.chars, ih, List.replicate_succ, List.cons_append]

theorem typeDescriptor_eq (type : List Char) :
    typeDescriptor names type = ((sourceType type).rename names.rename).chars := by
  rw [sourceType, chars_arrayType, ← elementDescriptor_eq]
  rfl

/-- **The descriptor of a method** in source form is that of its type with the listed classes renamed. -/
theorem methodDescriptor_eq (arguments result : List Char) :
    methodDescriptor names arguments result = ((sourceMethod arguments result).rename names.rename).toText := by
  have same : typeDescriptor names = fun type => ((sourceType type).rename names.rename).chars := by
    funext type
    exact typeDescriptor_eq names type
  rw [methodDescriptor, same, MethodType.toText, MethodType.chars, MethodType.rename, sourceMethod, List.flatMap_map,
    List.flatMap_map]

-- blanks around types are left out, and what is blank between commas is no type
example : sourceMethod " int[][] , net.World$Part,,".toList "void".toList =
    { parameters := [.array (.array (.base .int)), .object "net/World$Part"], result := .base .void } := by
  decide +kernel

end Mapping

end JarRename
