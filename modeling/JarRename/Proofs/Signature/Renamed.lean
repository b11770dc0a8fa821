import JarRename.Proofs.Signature.Reading
import Mathlib.Data.List.Forall2

/-!
**Signatures are renamed as trees.**

A nested class is known by the names of all classes around it, joined with `$`, and a signature writes only what its
name adds to that of the class around it. A tree stays a tree under a renaming if every nested class is still named
after the class around it.

* `Suffixes.fullNames`, `Generic.Renamed`, `Tree.Renamed`: the same tree in which the full name of every class is
  replaced;
* `Tree.render_parts`: the parts of a tree are written as the renamed tree;
* `AnswersWords`, `Part.Nests`, `Tree.exists_renamed`: renamings under which there is a renamed tree;
* `rename_tree`: a signature is renamed to the text of its renamed tree, if its type parameters are separated;
* `unboundedFirst`: type parameters that are not, and are misread.
-/

namespace JarRename.Signature

/-! ### Renamed trees -/

/-- The full names of a class and of the classes nested in it that a type goes down to. -/
def Suffixes.fullNames : Suffixes → List Char → List (List Char)
  | .none, around => [around]
  | .suffix name _ later, around => around :: later.fullNames (around ++ '$' :: name.chars)

mutual

/-- The same type in which the full name of every class is replaced. -/
inductive Generic.Renamed (rename : String → Option String) : Generic → Generic → Prop
  | base (type : BaseType) : Generic.Renamed rename (.base type) (.base type)
  | array {old new : Generic} (element : Generic.Renamed rename old new) :
    Generic.Renamed rename (.array old) (.array new)
  | typeVariable (name : Name [';']) : Generic.Renamed rename (.typeVariable name) (.typeVariable name)
  | object {name new : ClassWord} {arguments newArguments : Arguments} {suffixes newSuffixes : Suffixes}
    (names : newSuffixes.fullNames new.chars = (suffixes.fullNames name.chars).map (newName rename))
    (within : Arguments.Renamed rename arguments newArguments)
    (nested : Suffixes.Renamed rename suffixes newSuffixes) :
    Generic.Renamed rename (.object name arguments suffixes) (.object new newArguments newSuffixes)

/-- The same type arguments in which the full name of every class is replaced. -/
inductive Arguments.Renamed (rename : String → Option String) : Arguments → Arguments → Prop
  | none : Arguments.Renamed rename .none .none
  | any {old new : Arguments} (later : Arguments.Renamed rename old new) :
    Arguments.Renamed rename (.any old) (.any new)
  | type (variance : Variance) {type newType : Generic} {old new : Arguments}
    (first : Generic.Renamed rename type newType) (later : Arguments.Renamed rename old new) :
    Arguments.Renamed rename (.type variance type old) (.type variance newType new)

/-- As many suffixes with the same type arguments, in which the full name of every class is replaced. -/
inductive Suffixes.Renamed (rename : String → Option String) : Suffixes → Suffixes → Prop
  | none : Suffixes.Renamed rename .none .none
  | suffix (name new : ClassWord) {arguments newArguments : Arguments} {later newLater : Suffixes}
    (within : Arguments.Renamed rename arguments newArguments) (nested : Suffixes.Renamed rename later newLater) :
    Suffixes.Renamed rename (.suffix name arguments later) (.suffix new newArguments newLater)

end

variable {rename : String → Option String}

/-- The same type parameter with renamed bounds. -/
structure Parameter.Renamed (rename : String → Option String) (old new : Parameter) : Prop where
  name : new.name = old.name
  bound : Option.Rel (Generic.Renamed rename) old.bound new.bound
  interfaces : List.Forall₂ (Generic.Renamed rename) old.interfaces new.interfaces

/-- The same signature in which the full name of every class is replaced. -/
inductive Tree.Renamed (rename : String → Option String) : Tree → Tree → Prop
  | ofClass {parameters newParameters : List Parameter} {superclass newSuperclass : Generic}
    {interfaces newInterfaces : List Generic}
    (bounded : List.Forall₂ (Parameter.Renamed rename) parameters newParameters)
    (extended : superclass.Renamed rename newSuperclass)
    (implemented : List.Forall₂ (Generic.Renamed rename) interfaces newInterfaces) :
    Tree.Renamed rename (.ofClass parameters superclass interfaces)
      (.ofClass newParameters newSuperclass newInterfaces)
  | ofMethod {parameters newParameters : List Parameter} {arguments newArguments : List Generic}
    {result newResult : Generic} {exceptions newExceptions : List Generic}
    (bounded : List.Forall₂ (Parameter.Renamed rename) parameters newParameters)
    (taken : List.Forall₂ (Generic.Renamed rename) arguments newArguments)
    (returned : result.Renamed rename newResult)
    (thrown : List.Forall₂ (Generic.Renamed rename) exceptions newExceptions) :
    Tree.Renamed rename (.ofMethod parameters arguments result exceptions)
      (.ofMethod newParameters newArguments newResult newExceptions)
  | ofField {type newType : Generic} (renamed : type.Renamed rename newType) :
    Tree.Renamed rename (.ofField type) (.ofField newType)

/-! ### Writing renamed trees -/

theorem Suffixes.head?_fullNames (suffixes : Suffixes) (around : List Char) :
    (suffixes.fullNames around).head? = some around := by
  cases suffixes <;> rfl

/-- Brackets stay around what they enclose. -/
theorem render_enclosed {found : List Part} {text : List Char} (same : found.flatMap (Part.render rename) = text)
    (both : found = [] ↔ text = []) :
    (enclosed (.plain ['<']) (.plain ['>']) found).flatMap (Part.render rename) = enclosed '<' '>' text := by
  by_cases empty : text = []
  · rw [both.mpr empty, empty]
    rfl
  · rw [enclosed_of_ne_nil empty, enclosed_of_ne_nil (mt both.mp empty), List.flatMap_cons, List.flatMap_append, same]
    rfl

/-- Type arguments are left out in the renamed type if they are in the type. -/
theorem Arguments.Renamed.eq_nil_iff {old new : Arguments} (renamed : old.Renamed rename new) :
    old.parts = [] ↔ new.chars = [] := by
  rcases old.none_or with rfl | ⟨-, someParts⟩
  · cases renamed
    exact ⟨fun _ => rfl, fun _ => rfl⟩
  · rcases new.none_or with rfl | ⟨someChars, -⟩
    · cases renamed
      exact absurd rfl someParts
    · exact ⟨fun none => absurd none someParts, fun none => absurd none someChars⟩

/-- The suffix for a nested class is what its new name adds to that of the class around it. -/
theorem Part.render_inner {around full name : List Char}
    (nested : newName rename full = newName rename around ++ '$' :: name) :
    (Part.inner around full).render rename = name := by
  have split : newName rename full = newName rename around ++ ['$'] ++ name := by
    rw [nested, List.append_assoc, List.singleton_append]
  rw [Part.render, Text.dropStart?_eq_some.mpr split, Option.getD_some]

mutual

/-- The parts of a type are written as the renamed type. -/
theorem Generic.render_parts : ∀ {old new : Generic}, old.Renamed rename new →
    old.parts.flatMap (Part.render rename) = new.chars
  | _, _, .base type => rfl
  | _, _, .array element => by
    rw [Generic.parts, Generic.chars, List.flatMap_cons, Generic.render_parts element]
    rfl
  | _, _, .typeVariable name => rfl
  | .object name _ suffixes, .object new _ newSuffixes, .object names within nested => by
    have heads := congrArg List.head? names
    rw [List.head?_map, Suffixes.head?_fullNames, Suffixes.head?_fullNames] at heads
    have named : newName rename name.chars = new.chars := (Option.some.inj heads).symm
    have inside := render_enclosed (Arguments.render_parts within) within.eq_nil_iff
    have behind := Suffixes.render_parts nested names
    simp only [Generic.parts, Generic.chars, List.flatMap_cons, List.flatMap_append, inside, behind, Part.render, named,
      List.flatMap_nil, List.append_assoc, List.singleton_append, List.append_nil]

/-- The parts of type arguments are written as the renamed ones. -/
theorem Arguments.render_parts : ∀ {old new : Arguments}, old.Renamed rename new →
    old.parts.flatMap (Part.render rename) = new.chars
  | _, _, .none => rfl
  | _, _, .any later => by
    rw [Arguments.parts, Arguments.chars, List.flatMap_cons, Arguments.render_parts later]
    rfl
  | _, _, .type variance first later => by
    rw [Arguments.parts, Arguments.chars, List.flatMap_append, List.flatMap_append, Generic.render_parts first,
      Arguments.render_parts later, List.append_assoc]
    cases variance <;> rfl

/-- The parts of suffixes are written as the renamed ones. -/
theorem Suffixes.render_parts : ∀ {old new : Suffixes} {around newAround : List Char}, old.Renamed rename new →
    new.fullNames newAround = (old.fullNames around).map (newName rename) →
    (old.parts around).flatMap (Part.render rename) = new.chars
  | _, _, _, _, .none, _ => rfl
  | _, _, around, _, .suffix name new within nested, names => by
    rw [Suffixes.fullNames, Suffixes.fullNames, List.map_cons] at names
    obtain ⟨rfl, names⟩ := List.cons.inj names
    have heads := congrArg List.head? names
    rw [List.head?_map, Suffixes.head?_fullNames, Suffixes.head?_fullNames] at heads
    have named : newName rename (around ++ '$' :: name.chars) = newName rename around ++ '$' :: new.chars :=
      (Option.some.inj heads).symm
    have inside := render_enclosed (Arguments.render_parts within) within.eq_nil_iff
    have behind := Suffixes.render_parts nested names
    rw [Suffixes.parts, Suffixes.chars, List.flatMap_cons, List.flatMap_cons, List.flatMap_append,
      Part.render_inner named, inside, behind]
    rfl

end

/-- What stands in a list is written one after the other. -/
theorem render_flatMap {α β : Type} {related : α → β → Prop} {parts : α → List Part} {chars : β → List Char}
    (one : ∀ old new, related old new → (parts old).flatMap (Part.render rename) = chars new) {old : List α}
    {new : List β} (all : List.Forall₂ related old new) :
    (old.flatMap parts).flatMap (Part.render rename) = new.flatMap chars := by
  induction all with
  | nil => rfl
  | cons first later ih => rw [List.flatMap_cons, List.flatMap_append, one _ _ first, ih, List.flatMap_cons]

theorem render_types {old new : List Generic} (renamed : List.Forall₂ (Generic.Renamed rename) old new) :
    (old.flatMap Generic.parts).flatMap (Part.render rename) = new.flatMap Generic.chars := by
  refine render_flatMap (fun _ _ one => ?_) renamed
  exact Generic.render_parts one

theorem render_marked (mark : Char) {old new : List Generic}
    (renamed : List.Forall₂ (Generic.Renamed rename) old new) :
    (old.flatMap (Generic.markedParts mark)).flatMap (Part.render rename) =
      new.flatMap (Generic.markedChars mark) := by
  refine render_flatMap (fun _ _ one => ?_) renamed
  rw [Generic.markedParts, List.flatMap_cons, Generic.render_parts one]
  rfl

theorem render_bound {old new : Option Generic} (renamed : Option.Rel (Generic.Renamed rename) old new) :
    (old.toList.flatMap Generic.parts).flatMap (Part.render rename) = new.toList.flatMap Generic.chars := by
  cases renamed with
  | none => rfl
  | some bound => exact render_types (.cons bound .nil)

theorem Parameter.render_parts {old new : Parameter} (renamed : old.Renamed rename new) :
    old.parts.flatMap (Part.render rename) = new.chars := by
  rw [parts, chars, renamed.name, List.flatMap_cons, List.flatMap_cons, List.flatMap_append,
    render_bound renamed.bound, render_marked ':' renamed.interfaces]
  rfl

/-- The type parameters of a signature are written with their brackets. -/
theorem render_parameters {old new : List Parameter} (renamed : List.Forall₂ (Parameter.Renamed rename) old new) :
    (enclosed (.plain ['<']) (.plain ['>']) (old.flatMap Parameter.parts)).flatMap (Part.render rename) =
      enclosed '<' '>' (new.flatMap Parameter.chars) := by
  refine render_enclosed (render_flatMap (fun _ _ one => ?_) renamed) ?_
  · exact Parameter.render_parts one
  · cases renamed with
    | nil => exact ⟨fun _ => rfl, fun _ => rfl⟩
    | cons first later => simp [Parameter.parts, Parameter.chars]

/-- **The parts of a signature are written as the renamed signature.** -/
theorem Tree.render_parts {old new : Tree} (renamed : old.Renamed rename new) :
    old.parts.flatMap (Part.render rename) = new.chars := by
  cases renamed with
  | ofClass bounded extended implemented =>
    rw [parts, chars, List.flatMap_append, render_parameters bounded, render_types (.cons extended implemented)]
  | ofMethod bounded taken returned thrown =>
    rw [parts, chars, List.flatMap_append, render_parameters bounded, List.flatMap_cons, List.flatMap_append,
      render_types taken, List.flatMap_cons, List.flatMap_append, Generic.render_parts returned,
      render_marked '^' thrown]
    rfl
  | ofField type => exact Generic.render_parts type

/-! ### Renamings that keep classes nested -/

/-- No answer of a renaming has a character that ends the name of a class. -/
def AnswersWords (rename : String → Option String) : Prop :=
  ∀ name new, rename name = some new → ∀ c ∈ new.toList, c ∉ ['<', '.', ';']

/-- The new name of a nested class starts with that of the class around it. -/
def Part.Nests (rename : String → Option String) : Part → Prop
  | plain _ | outer _ => True
  | inner around full => newName rename around ++ ['$'] <+: newName rename full

instance : DecidablePred (Part.Nests rename)
  | .plain _ | .outer _ => isTrue trivial
  | .inner around full => inferInstanceAs (Decidable (newName rename around ++ ['$'] <+: newName rename full))

theorem newName_word (answers : AnswersWords rename) {name : List Char} (plain : ∀ c ∈ name, c ∉ ['<', '.', ';']) :
    ∀ c ∈ newName rename name, c ∉ ['<', '.', ';'] := by
  unfold newName renameOrKeep
  cases answered : rename (String.ofList name) with
  | none =>
    rw [Option.getD_none, String.toList_ofList]
    exact plain
  | some new => exact answers _ new answered

theorem forall_enclosed {property : Part → Prop} {opening closing : Part} {found : List Part}
    (each : ∀ part ∈ enclosed opening closing found, property part) : ∀ part ∈ found, property part := by
  intro part member
  refine each part ?_
  rw [enclosed_of_ne_nil (List.ne_nil_of_mem member)]
  exact List.mem_cons_of_mem _ (List.mem_append_left _ member)

mutual

/-- There is a renamed type. -/
theorem Generic.exists_renamed (answers : AnswersWords rename) : ∀ old : Generic,
    (∀ part ∈ old.parts, part.Nests rename) → ∃ new, old.Renamed rename new
  | .base type, _ => ⟨_, .base type⟩
  | .array element, nests => by
    rw [Generic.parts, List.forall_mem_cons] at nests
    obtain ⟨new, renamed⟩ := Generic.exists_renamed answers element nests.2
    exact ⟨_, .array renamed⟩
  | .typeVariable name, _ => ⟨_, .typeVariable name⟩
  | .object name arguments suffixes, nests => by
    simp only [Generic.parts, List.forall_mem_cons, List.forall_mem_append] at nests
    obtain ⟨-, -, ⟨inside, behind⟩, -⟩ := nests
    obtain ⟨newArguments, within⟩ := Arguments.exists_renamed answers arguments (forall_enclosed inside)
    obtain ⟨newSuffixes, nested, names⟩ := Suffixes.exists_renamed answers suffixes name.chars name.plain behind
    exact ⟨.object ⟨newName rename name.chars, newName_word answers name.plain⟩ newArguments newSuffixes,
      .object names within nested⟩

/-- There are renamed type arguments. -/
theorem Arguments.exists_renamed (answers : AnswersWords rename) : ∀ old : Arguments,
    (∀ part ∈ old.parts, part.Nests rename) → ∃ new, old.Renamed rename new
  | .none, _ => ⟨_, .none⟩
  | .any later, nests => by
    rw [Arguments.parts, List.forall_mem_cons] at nests
    obtain ⟨new, renamed⟩ := Arguments.exists_renamed answers later nests.2
    exact ⟨_, .any renamed⟩
  | .type variance type later, nests => by
    rw [Arguments.parts, List.forall_mem_append, List.forall_mem_append] at nests
    obtain ⟨⟨-, here⟩, behind⟩ := nests
    obtain ⟨newType, first⟩ := Generic.exists_renamed answers type here
    obtain ⟨new, others⟩ := Arguments.exists_renamed answers later behind
    exact ⟨_, .type variance first others⟩

/-- There are renamed suffixes of a class with full name `around`. -/
theorem Suffixes.exists_renamed (answers : AnswersWords rename) : ∀ (old : Suffixes) (around : List Char),
    (∀ c ∈ around, c ∉ ['<', '.', ';']) → (∀ part ∈ old.parts around, part.Nests rename) →
    ∃ new, old.Renamed rename new ∧
      new.fullNames (newName rename around) = (old.fullNames around).map (newName rename)
  | .none, _, _, _ => ⟨_, .none, rfl⟩
  | .suffix name arguments later, around, plain, nests => by
    simp only [Suffixes.parts, List.forall_mem_cons, List.forall_mem_append] at nests
    obtain ⟨-, ⟨word, longer⟩, inside, behind⟩ := nests
    have plainFull : ∀ c ∈ around ++ '$' :: name.chars, c ∉ ['<', '.', ';'] :=
      List.forall_mem_append.mpr ⟨plain, List.forall_mem_cons.mpr ⟨by decide, name.plain⟩⟩
    -- what the new full name adds to that of the class around it is a word
    have plainWord : ∀ c ∈ word, c ∉ ['<', '.', ';'] := by
      intro c member
      refine newName_word answers plainFull c ?_
      rw [← longer]
      exact List.mem_append_right _ member
    obtain ⟨newArguments, within⟩ := Arguments.exists_renamed answers arguments (forall_enclosed inside)
    obtain ⟨new, nested, names⟩ := Suffixes.exists_renamed answers later (around ++ '$' :: name.chars) plainFull behind
    refine ⟨.suffix ⟨word, plainWord⟩ newArguments new, .suffix _ _ within nested, ?_⟩
    rw [List.append_assoc, List.singleton_append] at longer
    rw [Suffixes.fullNames, Suffixes.fullNames, List.map_cons, longer, names]

end

/-- For what stands in a list there is a renamed list. -/
theorem exists_forall₂ {α : Type} {related : α → α → Prop} {parts : α → List Part} {property : Part → Prop}
    (one : ∀ old, (∀ part ∈ parts old, property part) → ∃ new, related old new) {old : List α}
    (each : ∀ part ∈ old.flatMap parts, property part) : ∃ new, List.Forall₂ related old new := by
  induction old with
  | nil => exact ⟨[], .nil⟩
  | cons first later ih =>
    rw [List.flatMap_cons, List.forall_mem_append] at each
    obtain ⟨newFirst, here⟩ := one first each.1
    obtain ⟨newLater, behind⟩ := ih each.2
    exact ⟨newFirst :: newLater, .cons here behind⟩

theorem Generic.Renamed.isReference {old new : Generic} (renamed : old.Renamed rename new)
    (reference : old.IsReference) : new.IsReference := by
  cases renamed with
  | base type => exact reference
  | array | typeVariable | object => trivial

theorem exists_types (answers : AnswersWords rename) {old : List Generic}
    (nests : ∀ part ∈ old.flatMap Generic.parts, part.Nests rename) :
    ∃ new, List.Forall₂ (Generic.Renamed rename) old new :=
  exists_forall₂ (Generic.exists_renamed answers) nests

theorem exists_marked (answers : AnswersWords rename) {mark : Char} {old : List Generic}
    (nests : ∀ part ∈ old.flatMap (Generic.markedParts mark), part.Nests rename) :
    ∃ new, List.Forall₂ (Generic.Renamed rename) old new :=
  exists_forall₂ (fun type each => type.exists_renamed answers (List.forall_mem_cons.mp each).2) nests

/-- There is a renamed class bound, which is no base type either. -/
theorem exists_bound (answers : AnswersWords rename) {old : Option Generic}
    (reference : ∀ type ∈ old, type.IsReference)
    (nests : ∀ part ∈ old.toList.flatMap Generic.parts, part.Nests rename) :
    ∃ new, Option.Rel (Generic.Renamed rename) old new ∧ ∀ type ∈ new, type.IsReference := by
  cases old with
  | none => exact ⟨none, .none, nofun⟩
  | some bound =>
    rw [Option.toList_some, List.flatMap_singleton] at nests
    obtain ⟨new, renamed⟩ := bound.exists_renamed answers nests
    refine ⟨some new, .some renamed, ?_⟩
    intro type same
    cases same
    exact renamed.isReference (reference bound rfl)

/-- There is a renamed type parameter. -/
theorem Parameter.exists_renamed (answers : AnswersWords rename) (old : Parameter)
    (nests : ∀ part ∈ old.parts, part.Nests rename) : ∃ new, old.Renamed rename new := by
  rw [parts, List.forall_mem_cons, List.forall_mem_cons, List.forall_mem_append] at nests
  obtain ⟨-, -, inBound, inInterfaces⟩ := nests
  obtain ⟨bound, bounded, reference⟩ := exists_bound answers old.reference inBound
  obtain ⟨interfaces, implemented⟩ := exists_marked answers inInterfaces
  exact ⟨{ old with bound, interfaces, reference }, rfl, bounded, implemented⟩

theorem exists_parameters (answers : AnswersWords rename) {old : List Parameter}
    (nests : ∀ part ∈ enclosed (.plain ['<']) (.plain ['>']) (old.flatMap Parameter.parts), part.Nests rename) :
    ∃ new, List.Forall₂ (Parameter.Renamed rename) old new :=
  exists_forall₂ (Parameter.exists_renamed answers) (forall_enclosed nests)

/-- **There is a renamed signature**, if the renaming keeps its classes nested. -/
theorem Tree.exists_renamed (answers : AnswersWords rename) (old : Tree)
    (nests : ∀ part ∈ old.parts, part.Nests rename) : ∃ new, old.Renamed rename new := by
  cases old with
  | ofClass parameters superclass interfaces =>
    rw [parts, List.flatMap_cons, List.forall_mem_append, List.forall_mem_append] at nests
    obtain ⟨inParameters, inSuperclass, inInterfaces⟩ := nests
    obtain ⟨newParameters, bounded⟩ := exists_parameters answers inParameters
    obtain ⟨newSuperclass, extended⟩ := superclass.exists_renamed answers inSuperclass
    obtain ⟨newInterfaces, implemented⟩ := exists_types answers inInterfaces
    exact ⟨_, .ofClass bounded extended implemented⟩
  | ofMethod parameters arguments result exceptions =>
    simp only [parts, List.forall_mem_append, List.forall_mem_cons] at nests
    obtain ⟨inParameters, -, inArguments, -, inResult, inExceptions⟩ := nests
    obtain ⟨newParameters, bounded⟩ := exists_parameters answers inParameters
    obtain ⟨newArguments, taken⟩ := exists_types answers inArguments
    obtain ⟨newResult, returned⟩ := result.exists_renamed answers inResult
    obtain ⟨newExceptions, thrown⟩ := exists_marked answers inExceptions
    exact ⟨_, .ofMethod bounded taken returned thrown⟩
  | ofField type =>
    obtain ⟨newType, renamed⟩ := type.exists_renamed answers nests
    exact ⟨_, .ofField renamed⟩

/-! ### Renaming signatures -/

/-- The text of a tree is renamed by writing its parts. -/
theorem rename_toText {tree : Tree} (separated : tree.Separated) :
    Signature.rename rename tree.toText = .ok (String.ofList (tree.parts.flatMap (Part.render rename))) := by
  rw [Signature.rename, parse_toText separated]
  rfl

/-- **A signature is renamed as a tree**: its text becomes that of the same tree in which the full name of every class
is replaced, if its type parameters are separated and the renaming keeps its classes nested. -/
theorem rename_tree (tree : Tree) (separated : tree.Separated) (answers : AnswersWords rename)
    (nests : ∀ part ∈ tree.parts, part.Nests rename) :
    ∃ new : Tree, tree.Renamed rename new ∧ Signature.rename rename tree.toText = .ok new.toText := by
  obtain ⟨new, renamed⟩ := tree.exists_renamed answers nests
  refine ⟨new, renamed, ?_⟩
  rw [rename_toText separated, Tree.render_parts renamed, Tree.toText]

/-- The names of an entity, of a class nested in it and of a class of their own. -/
def entityNames : String → Option String
  | "a" => some "net/Base"
  | "b" => some "net/Entity"
  | "b$c" => some "net/Entity$Removal"
  | _ => none

theorem answersWords_entityNames : AnswersWords entityNames := by
  intro name new answered
  unfold entityNames at answered
  split at answered <;> cases answered <;> simp

/-- A class without arguments and suffixes. -/
def plainClass (name : ClassWord) : Generic :=
  .object name .none .none

/-- A method with a type parameter that takes a class nested in a generic one. -/
def nestedMethod : Tree :=
  .ofMethod
    [{ name := .ofText "T" rfl, bound := some (plainClass (.ofText "a" rfl)), interfaces := []
       named := by decide, opens := by decide, reference := by rintro _ ⟨⟩; trivial }]
    [.object (.ofText "b" rfl) (.type .below (.typeVariable (.ofText "T" rfl)) (.any .none))
      (.suffix (.ofText "c" rfl) .none .none)]
    (.array (.base .int)) [.typeVariable (.ofText "T" rfl)]

theorem rename_tree_nested : ∃ new : Tree, nestedMethod.Renamed entityNames new ∧
    nestedMethod.toText = "<T:La;>(Lb<+TT;*>.c;)[I^TT;" ∧
    Signature.rename entityNames nestedMethod.toText = .ok new.toText ∧
    new.toText = "<T:Lnet/Base;>(Lnet/Entity<+TT;*>.Removal;)[I^TT;" := by
  have nests : ∀ part ∈ nestedMethod.parts, part.Nests entityNames := by
    decide
  obtain ⟨new, renamed, done⟩ := rename_tree nestedMethod (.singleton _) answersWords_entityNames nests
  refine ⟨new, renamed, by decide, done, ?_⟩
  rw [Tree.toText, ← Tree.render_parts renamed]
  decide

/-- A class with a type parameter `K` without bounds in front of one that is named `T` and bounded. -/
def unboundedFirst : Tree :=
  .ofClass
    [{ name := .ofText "K" rfl, bound := none, interfaces := []
       named := by decide, opens := by decide, reference := nofun },
     { name := .ofText "T" rfl, bound := some (plainClass (.ofText "a" rfl)), interfaces := []
       named := by decide, opens := by decide, reference := by rintro _ ⟨⟩; trivial }]
    (plainClass (.ofText "java/lang/Object" rfl)) []

/-- What `unboundedFirst` is read as: `K` is bounded by a type variable with the name `:La`. -/
def misread : Tree :=
  .ofClass
    [{ name := .ofText "K" rfl, bound := some (.typeVariable (.ofText ":La" rfl)), interfaces := []
       named := by decide, opens := by decide, reference := by rintro _ ⟨⟩; trivial }]
    (plainClass (.ofText "java/lang/Object" rfl)) []

/-- **Type parameters that are not separated** are misread, and the class that bounds the second keeps its name. -/
theorem not_forall_rename_tree : ¬∀ (rename : String → Option String) (tree : Tree), AnswersWords rename →
    (∀ part ∈ tree.parts, part.Nests rename) →
    ∃ new : Tree, tree.Renamed rename new ∧ Signature.rename rename tree.toText = .ok new.toText := by
  intro all
  obtain ⟨new, renamed, done⟩ := all entityNames unboundedFirst answersWords_entityNames (by decide)
  have text : unboundedFirst.toText = misread.toText := by decide
  have separated : misread.Separated := .singleton _
  rw [text, rename_toText separated, Tree.toText, ← Tree.render_parts renamed] at done
  have different : String.ofList (misread.parts.flatMap (Part.render entityNames)) ≠
      String.ofList (unboundedFirst.parts.flatMap (Part.render entityNames)) := by decide
  exact different (Except.ok.inj done)

end JarRename.Signature
