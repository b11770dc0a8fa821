import JarRename.Pool.Basic
import JarRename.Site.Basic
import JarRename.Site.Cursor

/-!
**The names in attributes.**

Attributes hold names as indices of the pool at offsets that depend on what stands before them. The walk
over an attribute lists every such index with the symbol it stands for, through nested attributes too.

* `Mention`: a symbol at an offset;
* `Mention.elementAt`, `Mention.marker`, `Mention.typeMarker`: the mentions in annotations;
* `Mention.ofNested`: a walk over a table of nested attributes;
* `Mention.ofAttribute`: the mentions in an attribute, by its name.
-/

namespace JarRename

/-- A symbol whose index is stored at an offset. -/
structure Mention where
  offset : Nat
  symbol : Symbol
  deriving DecidableEq

namespace Mention

section Parts

variable (pool : Pool)

/-- The offset of an index and the text it points at. -/
def text : Walk (Nat × String) := do
  let offset ← Walk.position
  let index ← Walk.u16
  let found ← Walk.check (pool.utf8 index)
  return (offset, found)

/-- A descriptor. -/
def descriptor : Walk (List Mention) := do
  let (offset, found) ← text pool
  return [{ offset, symbol := .ofDescriptor found }]

/-- A signature. -/
def signature : Walk (List Mention) := do
  let (offset, found) ← text pool
  return [{ offset, symbol := .ofSignature found }]

/-! ### Annotations -/

/-- An annotation whose values are walked by `value`. -/
def marker (value : Walk (List Mention)) : Walk (List Mention) := do
  let type ← descriptor pool
  let values ← Walk.table do
    Walk.skip 2
    value
  return type ++ values

/-- A class given by its descriptor. The descriptor of `void` names no type. -/
def classElement : Walk (List Mention) := do
  let (offset, found) ← text pool
  if found = "V" then return [] else return [{ offset, symbol := .ofDescriptor found }]

/-- Whether a tag is that of an element value with one constant. -/
def isConstantTag (tag : UInt8) : Bool :=
  "BCDFIJSZs".toList.contains (Char.ofUInt8 tag)

/-- An element value whose values are nested less than `depth` times. Every level of nesting takes a
byte, so nothing nests values deeper than its length. -/
def elementAt : Nat → Walk (List Mention)
  | 0 => Walk.truncated
  | depth + 1 => do
    let tag ← Walk.u8
    let mark := Char.ofUInt8 tag
    if isConstantTag tag then
      Walk.skip 2
      return []
    else if mark = 'e' then
      let type ← descriptor pool
      Walk.skip 2
      return type
    else if mark = 'c' then classElement pool
    else if mark = '@' then marker pool (elementAt depth)
    else if mark = '[' then Walk.table (elementAt depth)
    else Walk.fail (.unknownElement tag)

/-- How many bytes the target of a type annotation takes, and how many for each entry of its table. -/
def targetSize? (target : UInt8) : Option (Nat ⊕ Nat) :=
  let n := target.toNat
  if n = 0x00 ∨ n = 0x01 ∨ n = 0x16 then some (.inl 1)
  else if 0x10 ≤ n ∧ n ≤ 0x12 ∨ n = 0x17 ∨ 0x42 ≤ n ∧ n ≤ 0x46 then some (.inl 2)
  else if 0x13 ≤ n ∧ n ≤ 0x15 then some (.inl 0)
  else if n = 0x40 ∨ n = 0x41 then some (.inr 6)
  else if 0x47 ≤ n ∧ n ≤ 0x4b then some (.inl 3)
  else none

/-- The target of a type annotation, which names nothing. -/
def target : Walk Unit := do
  let kind ← Walk.u8
  match targetSize? kind with
  | some (.inl size) => Walk.skip size
  | some (.inr size) =>
    let count ← Walk.u16
    Walk.skip (count.toNat * size)
  | none => Walk.fail (.unknownTarget kind)

/-- A type annotation whose values are walked by `value`. -/
def typeMarker (value : Walk (List Mention)) : Walk (List Mention) := do
  target
  let length ← Walk.u8
  Walk.skip (length.toNat * 2)
  marker pool value

/-! ### Tables of a class, a record and a method -/

/-- An entry of the table of nested classes. Anonymous classes have no simple name. -/
def nestedClass : Walk (List Mention) := do
  let inner ← Walk.u16
  Walk.skip 2
  let offset ← Walk.position
  let simple ← Walk.u16
  Walk.skip 2
  if simple = 0 then return []
  else
    let inner ← Walk.check (pool.className inner)
    let name ← Walk.check (pool.utf8 simple)
    return [{ offset, symbol := .innerName inner name }]

/-- The method around a class, if there is one. -/
def enclosing : Walk (List Mention) := do
  let owner ← Walk.u16
  let offset ← Walk.position
  let method ← Walk.u16
  if method = 0 then return []
  else
    let (name, descriptor) ← Walk.check (pool.nameAndType method)
    let owner ← Walk.check (pool.className owner)
    return [{ offset, symbol := .enclosingMethod owner name descriptor }]

/-- A local variable, whose type is walked by `type`. -/
def localVariable (type : Walk (List Mention)) : Walk (List Mention) := do
  Walk.skip 6
  let found ← type
  Walk.skip 2
  return found

/-- The name and the descriptor of a component of the record class `owner`. -/
def component (owner : String) : Walk (List Mention) := do
  let (nameOffset, name) ← text pool
  let (offset, descriptor) ← text pool
  return [{ offset := nameOffset, symbol := .recordComponent owner name descriptor },
    { offset, symbol := .ofDescriptor descriptor }]

/-- What stands before the nested attributes of code. -/
def beforeNested : Walk Unit := do
  Walk.skip 4
  let length ← Walk.u32
  Walk.skip length
  let handlers ← Walk.u16
  Walk.skip (handlers.toNat * 8)

/-! ### Nested attributes -/

/-- A nested attribute, whose name and window are given to `visit`. -/
def ofNestedOne {α : Type} (visit : String → Cursor → Except Fault α) : Walk α := do
  let index ← Walk.u16
  let name ← Walk.check (pool.utf8 index)
  let length ← Walk.u32
  let cursor ← Walk.nested length
  let found ← Walk.check (visit name cursor)
  Walk.skip length
  return found

/-- A table of nested attributes, whose names and windows are given to `visit` in order. -/
def ofNested {α : Type} (visit : String → Cursor → Except Fault α) : Walk (List α) := do
  let count ← Walk.u16
  Walk.times count.toNat (ofNestedOne pool visit)

/-- The mentions in an attribute of a name, where attributes nest less than `depth` times. Every level of
nesting takes bytes, so nothing nests attributes deeper than its length. The class is named for the
components of records, and only methods have code. -/
def ofAttributeAt (className : String) (inMethod : Bool) : Nat → String → Walk (List Mention)
  | 0, _ => Walk.truncated
  | depth + 1, name => do
    let visit := fun name cursor => do
      let (found, _) ← ofAttributeAt className inMethod depth name cursor
      return found
    let element := elementAt pool (depth + 1)
    if name = "Signature" then signature pool
    else if name = "InnerClasses" then Walk.table (nestedClass pool)
    else if name = "EnclosingMethod" then enclosing pool
    else if name = "LocalVariableTable" then Walk.table (localVariable (descriptor pool))
    else if name = "LocalVariableTypeTable" then Walk.table (localVariable (signature pool))
    else if name = "RuntimeVisibleAnnotations" || name = "RuntimeInvisibleAnnotations" then
      Walk.table (marker pool element)
    else if name = "RuntimeVisibleParameterAnnotations" ||
        name = "RuntimeInvisibleParameterAnnotations" then
      let count ← Walk.u8
      Walk.concat count.toNat (Walk.table (marker pool element))
    else if name = "RuntimeVisibleTypeAnnotations" ||
        name = "RuntimeInvisibleTypeAnnotations" then
      Walk.table (typeMarker pool element)
    else if name = "AnnotationDefault" then element
    else if name = "Record" then
      Walk.table do
        let found ← component pool className
        let nested ← ofNested pool visit
        return found ++ nested.flatten
    else if name = "Code" && inMethod then
      beforeNested
      return (← ofNested pool visit).flatten
    else return []

end Parts

/-- The mentions in the contents of an attribute of a name. -/
def ofAttribute (pool : Pool) (className : String) (inMethod : Bool) (name : String)
    (data : Bytes) : Except Fault (List Mention) := do
  let (found, _) ←
    ofAttributeAt pool className inMethod (data.length + 1) name { offset := 0, window := data }
  return found

end Mention

end JarRename
