import JarRename.Proofs.Signature

/-!
**Signatures as trees.**

A signature is the text of a tree of types: base types, arrays, type variables and classes with type arguments and with
suffixes for the classes nested in them. In front of the types of a class or a method stand its type parameters with
their bounds.

* `Generic`, `Arguments`, `Suffixes`: types, with their characters (`chars`) and their parts (`parts`);
* `Parameter`, `Tree`: type parameters, and the signatures of classes, methods and fields;
* `Tree.Separated`: no type parameter without bounds stands in front of one whose name could be the start of a bound.
-/

namespace JarRename.Signature

/-! ### Types -/

/-- A name without the characters that end it. -/
structure Name (stops : List Char) where
  chars : List Char
  plain : ∀ c ∈ chars, c ∉ stops
  deriving DecidableEq

/-- The name that is a text. -/
def Name.ofText {stops : List Char} (text : String) (plain : (text.toList.all fun c => !stops.contains c) = true) :
    Name stops where
  chars := text.toList
  plain := by simpa using plain

/-- The name of a class, or what a suffix adds to it. -/
abbrev ClassWord := Name ['<', '.', ';']

/-- How a type argument stands to its type. -/
inductive Variance where
  | equal
  | below
  | above
  deriving DecidableEq

mutual

/-- A type. -/
inductive Generic where
  | base (type : BaseType)
  | array (element : Generic)
  | typeVariable (name : Name [';'])
  | object (name : ClassWord) (arguments : Arguments) (suffixes : Suffixes)

/-- The type arguments of a class, of which there may be none. -/
inductive Arguments where
  | none
  | any (later : Arguments)
  | type (variance : Variance) (type : Generic) (later : Arguments)

/-- The classes nested in a class that a type goes down to, with their own type arguments. -/
inductive Suffixes where
  | none
  | suffix (name : ClassWord) (arguments : Arguments) (later : Suffixes)

end

/-- Items between an opening and a closing one, or nothing if there are none. -/
def enclosed {α : Type} (opening closing : α) (items : List α) : List α :=
  if items.isEmpty then [] else opening :: (items ++ [closing])

/-- The mark in front of a type argument. -/
def Variance.chars : Variance → List Char
  | equal => []
  | below => ['+']
  | above => ['-']

mutual

/-- The characters of a type. -/
def Generic.chars : Generic → List Char
  | .base type => [type.letter]
  | .array element => '[' :: element.chars
  | .typeVariable name => 'T' :: (name.chars ++ [';'])
  | .object name arguments suffixes =>
    'L' :: (name.chars ++ (enclosed '<' '>' arguments.chars ++ (suffixes.chars ++ [';'])))

/-- The characters of type arguments, without the brackets around them. -/
def Arguments.chars : Arguments → List Char
  | .none => []
  | .any later => '*' :: later.chars
  | .type variance type later => variance.chars ++ (type.chars ++ later.chars)

/-- The characters of suffixes. -/
def Suffixes.chars : Suffixes → List Char
  | .none => []
  | .suffix name arguments later =>
    '.' :: (name.chars ++ (enclosed '<' '>' arguments.chars ++ later.chars))

end

mutual

/-- The parts of a type. -/
def Generic.parts : Generic → List Part
  | .base type => [.plain [type.letter]]
  | .array element => .plain ['['] :: element.parts
  | .typeVariable name => [.plain ['T'], .plain name.chars, .plain [';']]
  | .object name arguments suffixes =>
    .plain ['L'] :: .outer name.chars ::
      (enclosed (.plain ['<']) (.plain ['>']) arguments.parts ++ suffixes.parts name.chars ++ [.plain [';']])

/-- The parts of type arguments, without the brackets around them. -/
def Arguments.parts : Arguments → List Part
  | .none => []
  | .any later => .plain ['*'] :: later.parts
  | .type variance type later => variance.chars.map (fun c => .plain [c]) ++ type.parts ++ later.parts

/-- The parts of the suffixes of a class with full name `around`. -/
def Suffixes.parts : Suffixes → List Char → List Part
  | .none, _ => []
  | .suffix name arguments later, around =>
    .plain ['.'] :: .inner around (around ++ '$' :: name.chars) ::
      (enclosed (.plain ['<']) (.plain ['>']) arguments.parts ++ later.parts (around ++ '$' :: name.chars))

end

/-! ### How texts of types start and end -/

/-- Whether a type can start with a character. -/
def startsType (c : Char) : Bool :=
  (BaseType.ofLetter? c).isSome || c == '[' || c == 'T' || c == 'L'

theorem Generic.exists_start (type : Generic) : ∃ c tail, type.chars = c :: tail ∧ startsType c = true := by
  cases type with
  | base type =>
    refine ⟨type.letter, [], rfl, ?_⟩
    rw [startsType, BaseType.ofLetter?_letter]
    rfl
  | array element => exact ⟨'[', _, by rw [chars], rfl⟩
  | typeVariable name => exact ⟨'T', _, by rw [chars], rfl⟩
  | object name arguments suffixes => exact ⟨'L', _, by rw [chars], rfl⟩

/-- A character that starts no type is not that of a type. -/
theorem ne_of_startsType {c d : Char} (starts : startsType c = true) (other : startsType d = false) : c ≠ d := by
  rintro rfl
  rw [starts] at other
  cases other

theorem enclosed_of_ne_nil {α : Type} {opening closing : α} {items : List α} (some : items ≠ []) :
    enclosed opening closing items = opening :: (items ++ [closing]) := by
  rw [enclosed, if_neg (by rwa [List.isEmpty_iff])]

theorem length_le_enclosed {α : Type} (opening closing : α) (items : List α) :
    items.length ≤ (enclosed opening closing items).length := by
  unfold enclosed
  split_ifs with empty
  · rw [List.isEmpty_iff.mp empty]
  · rw [List.length_cons, List.length_append]
    omega

theorem Generic.parts_ne_nil (type : Generic) : type.parts ≠ [] := by
  cases type <;> rw [parts] <;> exact List.cons_ne_nil _ _

theorem Arguments.none_or (arguments : Arguments) :
    arguments = .none ∨ arguments.chars ≠ [] ∧ arguments.parts ≠ [] := by
  cases arguments with
  | none => exact .inl rfl
  | any later =>
    rw [chars, parts]
    exact .inr ⟨List.cons_ne_nil _ _, List.cons_ne_nil _ _⟩
  | type variance type later =>
    obtain ⟨c, tail, start, -⟩ := type.exists_start
    have some := type.parts_ne_nil
    rw [chars, parts, start]
    exact .inr ⟨by simp, by simp [some]⟩

/-- Behind the name and the arguments of a class stands a suffix or its end. -/
theorem Suffixes.exists_end (suffixes : Suffixes) (rest : List Char) :
    ∃ c tail, suffixes.chars ++ ';' :: rest = c :: tail ∧ (c = '.' ∨ c = ';') := by
  cases suffixes with
  | none => exact ⟨';', rest, rfl, .inr rfl⟩
  | suffix name arguments later =>
    rw [chars]
    exact ⟨'.', _, rfl, .inl rfl⟩

/-! ### Type parameters -/

/-- A type that is no base type. -/
def Generic.IsReference : Generic → Prop
  | .base _ => False
  | .array _ | .typeVariable _ | .object _ _ _ => True

/-- A type parameter. -/
structure Parameter where
  name : Name [':']
  /-- The class that bounds it, if there is one. -/
  bound : Option Generic
  /-- The interfaces that bound it. -/
  interfaces : List Generic
  named : name.chars ≠ []
  opens : name.chars.head? ≠ some '>'
  reference : ∀ type ∈ bound, type.IsReference

/-- The signature of a class, a method or a field. -/
inductive Tree where
  | ofClass (parameters : List Parameter) (superclass : Generic) (interfaces : List Generic)
  | ofMethod (parameters : List Parameter) (arguments : List Generic) (result : Generic) (exceptions : List Generic)
  | ofField (type : Generic)

/-- A type behind a mark. -/
def Generic.markedChars (mark : Char) (type : Generic) : List Char :=
  mark :: type.chars

/-- The parts of a type behind a mark. -/
def Generic.markedParts (mark : Char) (type : Generic) : List Part :=
  .plain [mark] :: type.parts

namespace Parameter

/-- The characters of a type parameter. -/
def chars (parameter : Parameter) : List Char :=
  parameter.name.chars ++ ':' :: (parameter.bound.toList.flatMap Generic.chars ++
    parameter.interfaces.flatMap (Generic.markedChars ':'))

/-- The parts of a type parameter. -/
def parts (parameter : Parameter) : List Part :=
  .plain parameter.name.chars :: .plain [':'] :: (parameter.bound.toList.flatMap Generic.parts ++
    parameter.interfaces.flatMap (Generic.markedParts ':'))

/-- Whether a type parameter has a bound of either sort. -/
def isBounded (parameter : Parameter) : Bool :=
  parameter.bound.isSome || !parameter.interfaces.isEmpty

/-- Whether a class bound can start with a character. -/
def startsBound (c : Char) : Bool :=
  c = 'L' || c = 'T' || c = '['

/-- The name of the second type parameter cannot be taken for a bound of the first. -/
def Separates (first second : Parameter) : Prop :=
  first.isBounded = true ∨ ∀ c ∈ second.name.chars.head?, startsBound c = false

end Parameter

namespace Tree

/-- The characters of a signature. -/
def chars : Tree → List Char
  | ofClass parameters superclass interfaces =>
    enclosed '<' '>' (parameters.flatMap Parameter.chars) ++ (superclass :: interfaces).flatMap Generic.chars
  | ofMethod parameters arguments result exceptions =>
    enclosed '<' '>' (parameters.flatMap Parameter.chars) ++ '(' :: (arguments.flatMap Generic.chars ++
      ')' :: (result.chars ++ exceptions.flatMap (Generic.markedChars '^')))
  | ofField type => type.chars

/-- The text of a signature. -/
def toText (tree : Tree) : String :=
  String.ofList tree.chars

/-- The parts of a signature. -/
def parts : Tree → List Part
  | ofClass parameters superclass interfaces =>
    enclosed (.plain ['<']) (.plain ['>']) (parameters.flatMap Parameter.parts) ++
      (superclass :: interfaces).flatMap Generic.parts
  | ofMethod parameters arguments result exceptions =>
    enclosed (.plain ['<']) (.plain ['>']) (parameters.flatMap Parameter.parts) ++ .plain ['('] ::
      (arguments.flatMap Generic.parts ++ .plain [')'] :: (result.parts ++
        exceptions.flatMap (Generic.markedParts '^')))
  | ofField type => type.parts

/-- The type parameters of a signature. -/
def parameters : Tree → List Parameter
  | ofClass parameters _ _ | ofMethod parameters _ _ _ => parameters
  | ofField _ => []

/-- No type parameter without bounds stands in front of one whose name could be the start of a bound. -/
def Separated (tree : Tree) : Prop :=
  tree.parameters.IsChain Parameter.Separates

end Tree

end JarRename.Signature
