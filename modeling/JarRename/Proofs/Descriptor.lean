import JarRename.Descriptor
import JarRename.Proofs.Outcome
import Mathlib.Data.List.TakeWhile
import Mathlib.Data.Set.Function

/-!
**Descriptors are read from what they print.**

A descriptor is read exactly from the characters of its type, if no class in it has an empty name or a
name with a semicolon. A renaming that keeps to such names takes readable descriptors to readable ones.

* `FieldType.WellNamed`, `MethodType.WellNamed`: types whose class names can be read back;
* `FieldType.read_eq_ok`, `FieldType.parse_eq_ok`, `MethodType.parse_eq_ok`: reading against printing;
* `Descriptor.rename_eq_ok`: what a descriptor is renamed to;
* `Descriptor.parse_of_rename`: the renamed descriptor of a method read again;
* `MethodType.classNames`, `Descriptor.eq_of_rename`: the classes in descriptors; a renaming that keeps them apart keeps
  descriptors apart;
* `MethodType.rename_eq_self`, `Descriptor.rename_of_kept`: a descriptor in which all classes keep their names.
-/

namespace JarRename

/-- A class name that a descriptor can hold: it is not empty and has no semicolon. -/
def IsClassName (name : String) : Prop :=
  name ≠ "" ∧ ';' ∉ name.toList

namespace BaseType

/-- One question about a letter: it is the letter asked for, or the later questions decide. -/
theorem or_of_letter {c d : Char} {first type : BaseType} {later : Option BaseType}
    (read : (if c = d then some first else later) = some type) : first = type ∧ d = c ∨ later = some type := by
  by_cases same : c = d
  · rw [if_pos same] at read
    exact .inl ⟨Option.some.inj read, same.symm⟩
  · rw [if_neg same] at read
    exact .inr read

/-- A letter is that of the base type it is read as. -/
theorem letter_of_ofLetter? {c : Char} {type : BaseType} (read : ofLetter? c = some type) :
    type.letter = c := by
  unfold ofLetter? at read
  iterate 9
    obtain ⟨rfl, same⟩ | read := or_of_letter read
    · exact same
  cases read

end BaseType

namespace FieldType

/-- All class names in a type can be read back. -/
def WellNamed : FieldType → Prop
  | base _ => True
  | object className => IsClassName className
  | array element => WellNamed element

/-- A class name is read up to its semicolon. -/
theorem readClassName_eq_ok {text rest : List Char} {name : String} :
    readClassName text = .ok (name, rest) ↔ IsClassName name ∧ text = name.toList ++ ';' :: rest := by
  unfold readClassName
  constructor
  · intro done
    have whole := List.takeWhile_append_dropWhile (p := (· != ';')) (l := text)
    dsimp only at done
    split at done
    · cases done
    next stop after found =>
      split_ifs at done with empty
      cases done
      have stops : stop = ';' := by
        have more : text.dropWhile (· != ';') ≠ [] := by
          rw [found]
          exact List.cons_ne_nil _ _
        have head := List.head_dropWhile_not (· != ';') more
        simp only [found, List.head_cons] at head
        simpa using head
      rw [String.toList_ofList]
      refine ⟨⟨?_, ?_⟩, ?_⟩
      · intro none
        have chars := congrArg String.toList none
        rw [String.toList_ofList] at chars
        exact empty (List.isEmpty_iff.mpr chars)
      · rw [String.toList_ofList]
        intro member
        have := List.mem_takeWhile_imp member
        simp at this
      · rw [stops] at found
        rw [← found, whole]
  · rintro ⟨⟨nonempty, plain⟩, rfl⟩
    have before : ∀ c ∈ name.toList, (c != ';') = true := by
      intro c member
      rw [bne_iff_ne]
      rintro rfl
      exact plain member
    have some : ¬name.toList.isEmpty = true := by
      intro empty
      apply nonempty
      rw [← String.ofList_toList (s := name), List.isEmpty_iff.mp empty]
    have taken : (name.toList ++ ';' :: rest).takeWhile (· != ';') = name.toList := by
      rw [List.takeWhile_append_of_pos before]
      simp
    have left : (name.toList ++ ';' :: rest).dropWhile (· != ';') = ';' :: rest := by
      rw [List.dropWhile_append_of_pos before]
      simp
    simp only [taken, left, if_neg some, String.ofList_toList]

/-- A type is read from its characters. -/
theorem read_chars {type : FieldType} (named : type.WellNamed) (rest : List Char) :
    read (type.chars ++ rest) = .ok (type, rest) := by
  induction type with
  | base base =>
    rw [chars, List.singleton_append, read, BaseType.ofLetter?_letter]
  | object className =>
    have name := readClassName_eq_ok.mpr ⟨named, (rfl : className.toList ++ ';' :: rest = _)⟩
    have letter : BaseType.ofLetter? 'L' = none := rfl
    rw [chars, List.cons_append, List.append_assoc, List.singleton_append, read, letter]
    simp only [name]
    rfl
  | array element ih =>
    have letter : BaseType.ofLetter? '[' = none := rfl
    rw [chars, List.cons_append, read, letter]
    simp only [ih named, if_true]

/-- What a type is read from are its characters. -/
theorem chars_of_read {text rest : List Char} {type : FieldType} (done : read text = .ok (type, rest)) :
    type.WellNamed ∧ text = type.chars ++ rest := by
  induction text generalizing type rest with
  | nil => cases done
  | cons c tail ih =>
    unfold read at done
    split at done
    next base letter =>
      cases done
      rw [chars, BaseType.letter_of_ofLetter? letter]
      exact ⟨trivial, rfl⟩
    next =>
      split_ifs at done with array object
      · split at done
        next element left found =>
          cases done
          obtain ⟨named, rfl⟩ := ih found
          rw [array]
          exact ⟨named, rfl⟩
        next => cases done
      · split at done
        next name left found =>
          cases done
          obtain ⟨named, rfl⟩ := readClassName_eq_ok.mp found
          rw [object, chars, List.cons_append, List.append_assoc, List.singleton_append]
          exact ⟨named, rfl⟩
        next => cases done

/-- **A type** is read exactly from its characters. -/
theorem read_eq_ok {text rest : List Char} {type : FieldType} :
    read text = .ok (type, rest) ↔ type.WellNamed ∧ text = type.chars ++ rest := by
  constructor
  · exact chars_of_read
  · rintro ⟨named, rfl⟩
    exact read_chars named rest

/-- A field descriptor is the text of its type. -/
theorem parse_eq_ok {text : String} {type : FieldType} :
    parse text = .ok type ↔ type.WellNamed ∧ text = type.toText := by
  rw [parse, bind_eq_ok]
  constructor
  · rintro ⟨⟨found, rest⟩, done, same⟩
    cases rest with
    | cons c rest => cases same
    | nil =>
      cases same
      obtain ⟨named, chars⟩ := read_eq_ok.mp done
      rw [List.append_nil] at chars
      refine ⟨named, ?_⟩
      rw [toText, ← chars, String.ofList_toList]
  · rintro ⟨named, rfl⟩
    refine ⟨(type, []), read_eq_ok.mpr ⟨named, ?_⟩, rfl⟩
    rw [toText, String.toList_ofList, List.append_nil]

end FieldType

namespace MethodType

/-- All class names in a method type can be read back. -/
def WellNamed (type : MethodType) : Prop :=
  (∀ parameter ∈ type.parameters, parameter.WellNamed) ∧ type.result.WellNamed

/-- A type does not start with a closing parenthesis. -/
theorem chars_ne_close {type : FieldType} {rest tail : List Char} : type.chars ++ rest ≠ ')' :: tail := by
  cases type with
  | base base =>
    intro same
    rw [FieldType.chars, List.singleton_append] at same
    injection same with letter
    cases base <;> exact absurd letter (by decide)
  | object className =>
    intro same
    injection same with letter
    exact absurd letter (by decide)
  | array element =>
    intro same
    injection same with letter
    exact absurd letter (by decide)

/-- The parameters are read one by one up to the closing parenthesis. -/
theorem readParameters_eq_ok {whole : String} {found types : List FieldType} {text rest : List Char} :
    readParameters whole found text = .ok (types, rest) ↔
      ∃ later, types = found.reverse ++ later ∧ (∀ type ∈ later, type.WellNamed) ∧
        text = later.flatMap FieldType.chars ++ ')' :: rest := by
  constructor
  · intro done
    fun_induction readParameters whole found text with
    | case1 found => cases done
    | case2 found tail =>
      cases done
      exact ⟨[], (List.append_nil _).symm, fun _ member => absurd member List.not_mem_nil, rfl⟩
    | case3 found c tail open_ cause failed => cases done
    | case4 found c tail open_ type left read ih =>
      obtain ⟨named, chars⟩ := FieldType.read_eq_ok.mp read
      obtain ⟨later, rfl, nameds, rfl⟩ := ih done
      refine ⟨type :: later, by simp, List.forall_mem_cons.mpr ⟨named, nameds⟩, ?_⟩
      rw [chars, List.flatMap_cons, List.append_assoc]
  · rintro ⟨later, rfl, nameds, rfl⟩
    induction later generalizing found with
    | nil =>
      rw [List.flatMap_nil, List.nil_append, readParameters, if_pos rfl, List.append_nil]
    | cons type later ih =>
      have read := FieldType.read_chars (nameds type List.mem_cons_self)
        (later.flatMap FieldType.chars ++ ')' :: rest)
      have next := @ih (type :: found) fun other member => nameds other (List.mem_cons_of_mem _ member)
      rw [List.reverse_cons, List.append_assoc, List.singleton_append] at next
      rw [List.flatMap_cons, List.append_assoc]
      cases start : type.chars ++ (later.flatMap FieldType.chars ++ ')' :: rest) with
      | nil =>
        rw [start] at read
        cases read
      | cons c tail =>
        rw [start] at read
        have opens : c ≠ ')' := by
          rintro rfl
          exact chars_ne_close start
        rw [readParameters, if_neg opens]
        split
        next cause failed =>
          rw [read] at failed
          cases failed
        next other left done =>
          rw [read] at done
          cases done
          exact next

/-- **A method descriptor** is the text of its type. -/
theorem parse_eq_ok {text : String} {type : MethodType} :
    parse text = .ok type ↔ type.WellNamed ∧ text = type.toText := by
  unfold parse
  constructor
  · intro done
    split at done
    next rest opened =>
      obtain ⟨⟨parameters, after⟩, read, done⟩ := bind_eq_ok.mp done
      obtain ⟨⟨result, left⟩, last, done⟩ := bind_eq_ok.mp done
      cases left with
      | cons c left => cases done
      | nil =>
        cases done
        obtain ⟨later, same, nameds, rfl⟩ := readParameters_eq_ok.mp read
        rw [List.reverse_nil, List.nil_append] at same
        subst same
        obtain ⟨named, rfl⟩ := FieldType.read_eq_ok.mp last
        refine ⟨⟨nameds, named⟩, ?_⟩
        rw [← String.ofList_toList (s := text), opened, List.append_nil]
        rfl
    next => cases done
  · rintro ⟨⟨nameds, named⟩, rfl⟩
    have parameters : readParameters type.toText [] (type.parameters.flatMap FieldType.chars ++
        ')' :: type.result.chars) = .ok (type.parameters, type.result.chars) :=
      readParameters_eq_ok.mpr ⟨type.parameters, rfl, nameds, rfl⟩
    have result := FieldType.read_chars named []
    rw [List.append_nil] at result
    have opened : type.toText.toList =
        '(' :: (type.parameters.flatMap FieldType.chars ++ ')' :: type.result.chars) := by
      rw [toText, String.toList_ofList]
      rfl
    rw [opened]
    refine bind_eq_ok.mpr ⟨(type.parameters, type.result.chars), parameters, ?_⟩
    exact bind_eq_ok.mpr ⟨(type.result, []), result, rfl⟩

end MethodType

/-! ### The classes in a descriptor -/

/-- The class in a type, if there is one. -/
def FieldType.className? : FieldType → Option String
  | base _ => none
  | object className => some className
  | array element => className? element

/-- The classes in a method type. -/
def MethodType.classNames (type : MethodType) : List String :=
  type.parameters.filterMap FieldType.className? ++ type.result.className?.toList

theorem MethodType.mem_classNames {type : MethodType} {name : String} : name ∈ type.classNames ↔
    (∃ parameter ∈ type.parameters, parameter.className? = some name) ∨ type.result.className? = some name := by
  rw [classNames, List.mem_append, List.mem_filterMap, Option.mem_toList]

/-! ### Renaming -/

/-- A class renaming that answers only with names that descriptors can hold. -/
def AnswersClassNames (rename : String → Option String) : Prop :=
  ∀ name new, rename name = some new → IsClassName new

/-- A type stays readable if its class gets a name that descriptors can hold. -/
theorem FieldType.WellNamed.rename {rename : String → Option String} {type : FieldType} (named : type.WellNamed)
    (answers : ∀ name, type.className? = some name → ∀ new, rename name = some new → IsClassName new) :
    (type.rename rename).WellNamed := by
  induction type with
  | base base => trivial
  | object className =>
    unfold FieldType.rename renameOrKeep
    cases found : rename className with
    | none => exact named
    | some new => exact answers className rfl new found
  | array element ih => exact ih named answers

theorem MethodType.WellNamed.rename {rename : String → Option String} {type : MethodType} (named : type.WellNamed)
    (answers : ∀ name ∈ type.classNames, ∀ new, rename name = some new → IsClassName new) :
    (type.rename rename).WellNamed := by
  refine ⟨fun parameter member => ?_, ?_⟩
  · obtain ⟨old, listed, rfl⟩ := List.mem_map.mp member
    exact (named.1 old listed).rename fun name found => answers name (mem_classNames.mpr (.inl ⟨old, listed, found⟩))
  · exact named.2.rename fun name found => answers name (mem_classNames.mpr (.inr found))

namespace Descriptor

theorem isMethod_toText (type : MethodType) : isMethod type.toText = true := by
  rw [isMethod, MethodType.toText, String.toList_ofList]
  rfl

theorem isMethod_fieldText (type : FieldType) : isMethod type.toText = false := by
  rw [isMethod, FieldType.toText, String.toList_ofList]
  cases type with
  | base base => cases base <;> rfl
  | object className => rfl
  | array element => rfl

/-- **Renaming a descriptor** renames the classes of the type that it prints. -/
theorem rename_eq_ok {rename : String → Option String} {old new : String} :
    Descriptor.rename rename old = .ok new ↔
      (∃ type : MethodType, type.WellNamed ∧ old = type.toText ∧ new = (type.rename rename).toText) ∨
      ∃ type : FieldType, type.WellNamed ∧ old = type.toText ∧ new = (type.rename rename).toText := by
  unfold Descriptor.rename
  constructor
  · intro done
    split_ifs at done with method
    · obtain ⟨type, parsed, same⟩ := bind_eq_ok.mp done
      obtain ⟨named, text⟩ := MethodType.parse_eq_ok.mp parsed
      exact .inl ⟨type, named, text, (pure_eq_ok.mp same).symm⟩
    · obtain ⟨type, parsed, same⟩ := bind_eq_ok.mp done
      obtain ⟨named, text⟩ := FieldType.parse_eq_ok.mp parsed
      exact .inr ⟨type, named, text, (pure_eq_ok.mp same).symm⟩
  · rintro (⟨type, named, rfl, rfl⟩ | ⟨type, named, rfl, rfl⟩)
    · rw [if_pos (isMethod_toText type)]
      exact bind_eq_ok.mpr ⟨type, MethodType.parse_eq_ok.mpr ⟨named, rfl⟩, rfl⟩
    · rw [if_neg (by rw [isMethod_fieldText]; exact Bool.false_ne_true)]
      exact bind_eq_ok.mpr ⟨type, FieldType.parse_eq_ok.mpr ⟨named, rfl⟩, rfl⟩

/-- The descriptor of a method can be renamed. -/
theorem exists_rename (rename : String → Option String) {old : String} {type : MethodType}
    (parsed : MethodType.parse old = .ok type) : ∃ new, Descriptor.rename rename old = .ok new := by
  rw [MethodType.parse_eq_ok] at parsed
  refine ⟨(type.rename rename).toText, ?_⟩
  rw [rename_eq_ok]
  exact .inl ⟨type, parsed.1, parsed.2, rfl⟩

/-- Renaming keeps the sort of a descriptor. -/
theorem isMethod_of_rename {rename : String → Option String} {old new : String}
    (renamed : Descriptor.rename rename old = .ok new) : isMethod new = isMethod old := by
  rw [rename_eq_ok] at renamed
  obtain ⟨type, -, rfl, rfl⟩ | ⟨type, -, rfl, rfl⟩ := renamed
  · rw [isMethod_toText, isMethod_toText]
  · rw [isMethod_fieldText, isMethod_fieldText]

/-- Only the descriptor of `void` is renamed to that of `void`. -/
theorem eq_void_of_rename {rename : String → Option String} {old : String}
    (renamed : Descriptor.rename rename old = .ok "V") : old = "V" := by
  rw [rename_eq_ok] at renamed
  obtain ⟨type, -, -, same⟩ | ⟨type, -, rfl, same⟩ := renamed
  · have method := isMethod_toText (type.rename rename)
    rw [← same] at method
    cases method
  · cases type with
    | base base => exact same.symm
    | object className =>
      have chars := congrArg String.toList same
      rw [FieldType.toText, FieldType.rename, FieldType.chars, String.toList_ofList,
        String.toList_ofList] at chars
      exact absurd (List.cons.inj chars).1 (by decide)
    | array element =>
      have chars := congrArg String.toList same
      rw [FieldType.toText, FieldType.rename, FieldType.chars, String.toList_ofList,
        String.toList_ofList] at chars
      exact absurd (List.cons.inj chars).1 (by decide)

/-- The descriptor of an array is renamed to that of an array. -/
theorem head?_of_rename {rename : String → Option String} {old new : String}
    (array : old.toList.head? = some '[') (renamed : Descriptor.rename rename old = .ok new) :
    new.toList.head? = some '[' := by
  rw [rename_eq_ok] at renamed
  obtain ⟨type, -, rfl, rfl⟩ | ⟨type, -, rfl, rfl⟩ := renamed
  · rw [MethodType.toText, String.toList_ofList, MethodType.chars, List.head?_cons] at array
    cases array
  · rw [FieldType.toText, String.toList_ofList] at array ⊢
    cases type with
    | base base => cases base <;> cases array
    | object className => cases array
    | array element => rfl

/-- The descriptor of a method type is renamed to that of the renamed method type. -/
theorem rename_toText (type : MethodType) (named : type.WellNamed) {rename : String → Option String} {new : String}
    (renamed : Descriptor.rename rename type.toText = .ok new) : new = (type.rename rename).toText := by
  unfold Descriptor.rename at renamed
  rw [if_pos (isMethod_toText type), MethodType.parse_eq_ok.mpr ⟨named, rfl⟩] at renamed
  cases renamed
  rfl

/-- **The renamed descriptor of a method** is that of the renamed method type. -/
theorem parse_of_rename {rename : String → Option String} (answers : AnswersClassNames rename)
    {old new : String} {type : MethodType} (parsed : MethodType.parse old = .ok type)
    (renamed : Descriptor.rename rename old = .ok new) :
    MethodType.parse new = .ok (type.rename rename) := by
  obtain ⟨named, rfl⟩ := MethodType.parse_eq_ok.mp parsed
  exact MethodType.parse_eq_ok.mpr ⟨named.rename fun name _ => answers name, rename_toText type named renamed⟩

end Descriptor

/-! ### Classes that are not renamed -/

/-- The classes that a descriptor asks about, of whichever sort it is. -/
def Descriptor.classNames (descriptor : String) : List String :=
  if isMethod descriptor then
    match MethodType.parse descriptor with
    | .ok type => type.classNames
    | .error _ => []
  else
    match FieldType.parse descriptor with
    | .ok type => type.className?.toList
    | .error _ => []

/-- A text is no descriptor, for a cause. -/
def Descriptor.Malformed (descriptor : String) (cause : Fault) : Prop :=
  if isMethod descriptor then MethodType.parse descriptor = .error cause
  else FieldType.parse descriptor = .error cause

section Unmapped

variable {rename : String → Option String}

/-- A type stays as it is if its class keeps its name. -/
theorem FieldType.rename_eq_self {type : FieldType}
    (kept : ∀ name, type.className? = some name → renameOrKeep rename name = name) : type.rename rename = type := by
  induction type with
  | base base => rfl
  | object className => rw [FieldType.rename, kept className rfl]
  | array element ih => rw [FieldType.rename, ih kept]

theorem MethodType.rename_eq_self {type : MethodType}
    (kept : ∀ name ∈ type.classNames, renameOrKeep rename name = name) : type.rename rename = type := by
  have parameters : type.parameters.map (FieldType.rename rename) = type.parameters := by
    refine List.map_congr_left (fun parameter member => ?_) |>.trans type.parameters.map_id
    exact FieldType.rename_eq_self fun name found =>
      kept name (mem_classNames.mpr (.inl ⟨parameter, member, found⟩))
  have result : type.result.rename rename = type.result :=
    FieldType.rename_eq_self fun name found => kept name (mem_classNames.mpr (.inr found))
  rw [MethodType.rename, parameters, result]

/-- **A descriptor in which all classes keep their names** stays as it is, if it is one. -/
theorem Descriptor.rename_of_kept {descriptor : String}
    (kept : ∀ name ∈ classNames descriptor, renameOrKeep rename name = name) :
    Descriptor.rename rename descriptor = .ok descriptor ∨
      ∃ cause, Descriptor.rename rename descriptor = .error cause ∧ Malformed descriptor cause := by
  unfold Descriptor.rename Malformed
  unfold classNames at kept
  split_ifs at kept ⊢ with method
  · cases parsed : MethodType.parse descriptor with
    | error cause => exact .inr ⟨cause, rfl, rfl⟩
    | ok type =>
      rw [parsed] at kept
      rw [ok_bind, MethodType.rename_eq_self kept, (MethodType.parse_eq_ok.mp parsed).2.symm]
      exact .inl rfl
  · cases parsed : FieldType.parse descriptor with
    | error cause => exact .inr ⟨cause, rfl, rfl⟩
    | ok type =>
      rw [parsed] at kept
      rw [ok_bind, FieldType.rename_eq_self fun name found => kept name (Option.mem_toList.mpr found),
        (FieldType.parse_eq_ok.mp parsed).2.symm]
      exact .inl rfl

/-- A class without a new name keeps its name. -/
theorem renameOrKeep_of_unmapped {name : String} (unmapped : rename name = none) : renameOrKeep rename name = name := by
  rw [renameOrKeep, unmapped, Option.getD_none]

end Unmapped

/-! ### Classes kept apart -/

section Apart

variable {rename : String → Option String} {names : Set String}

/-- Types whose classes are kept apart are kept apart. -/
theorem FieldType.eq_of_rename (injective : Set.InjOn (renameOrKeep rename) names) {first second : FieldType}
    (inside : ∀ name, first.className? = some name → name ∈ names)
    (insideToo : ∀ name, second.className? = some name → name ∈ names)
    (same : first.rename rename = second.rename rename) : first = second := by
  induction first generalizing second with
  | base base =>
    cases second <;> cases same
    rfl
  | object className =>
    cases second with
    | object other =>
      injection same with same
      rw [injective (inside className rfl) (insideToo other rfl) same]
    | base | array => cases same
  | array element ih =>
    cases second with
    | array other =>
      injection same with same
      exact congrArg array (ih inside insideToo same)
    | base | object => cases same

theorem FieldType.eq_of_map_rename (injective : Set.InjOn (renameOrKeep rename) names) {first second : List FieldType}
    (inside : ∀ type ∈ first, ∀ name, type.className? = some name → name ∈ names)
    (insideToo : ∀ type ∈ second, ∀ name, type.className? = some name → name ∈ names)
    (same : first.map (FieldType.rename rename) = second.map (FieldType.rename rename)) : first = second := by
  induction first generalizing second with
  | nil => exact (List.map_eq_nil_iff.mp same.symm).symm
  | cons one first ih =>
    cases second with
    | nil => cases same
    | cons two second =>
      obtain ⟨sameType, sameRest⟩ := List.cons.inj same
      obtain ⟨here, behind⟩ := List.forall_mem_cons.mp inside
      obtain ⟨hereToo, behindToo⟩ := List.forall_mem_cons.mp insideToo
      rw [FieldType.eq_of_rename injective here hereToo sameType, ih behind behindToo sameRest]

namespace MethodType

theorem eq_of_rename (injective : Set.InjOn (renameOrKeep rename) names) {first second : MethodType}
    (inside : ∀ name ∈ first.classNames, name ∈ names) (insideToo : ∀ name ∈ second.classNames, name ∈ names)
    (same : first.rename rename = second.rename rename) : first = second := by
  injection same with sameParameters sameResult
  have parameters : first.parameters = second.parameters :=
    FieldType.eq_of_map_rename injective
      (fun type listed name found => inside name (mem_classNames.mpr (.inl ⟨type, listed, found⟩)))
      (fun type listed name found => insideToo name (mem_classNames.mpr (.inl ⟨type, listed, found⟩))) sameParameters
  have result : first.result = second.result :=
    FieldType.eq_of_rename injective (fun name found => inside name (mem_classNames.mpr (.inr found)))
      (fun name found => insideToo name (mem_classNames.mpr (.inr found))) sameResult
  cases first
  cases second
  rw [MethodType.mk.injEq]
  exact ⟨parameters, result⟩

/-- Types whose classes can be read back are the same if they print the same. -/
theorem WellNamed.eq_of_toText {first second : MethodType} (named : first.WellNamed) (other : second.WellNamed)
    (same : first.toText = second.toText) : first = second := by
  have read := parse_eq_ok.mpr ⟨named, rfl⟩
  rw [same, parse_eq_ok.mpr ⟨other, rfl⟩] at read
  injection read with equal
  exact equal.symm

end MethodType

/-- **Descriptors of methods are kept apart** by a renaming that keeps the classes in them apart and gives them names
that descriptors can hold. -/
theorem Descriptor.eq_of_rename (injective : Set.InjOn (renameOrKeep rename) names)
    (answers : ∀ name ∈ names, ∀ new, rename name = some new → IsClassName new) {first second new : String}
    {firstType secondType : MethodType} (firstRead : MethodType.parse first = .ok firstType)
    (secondRead : MethodType.parse second = .ok secondType) (inside : ∀ name ∈ firstType.classNames, name ∈ names)
    (insideToo : ∀ name ∈ secondType.classNames, name ∈ names) (renamed : Descriptor.rename rename first = .ok new)
    (renamedToo : Descriptor.rename rename second = .ok new) : first = second := by
  obtain ⟨named, rfl⟩ := MethodType.parse_eq_ok.mp firstRead
  obtain ⟨namedToo, rfl⟩ := MethodType.parse_eq_ok.mp secondRead
  have text := rename_toText firstType named renamed
  have textToo := rename_toText secondType namedToo renamedToo
  have same := (named.rename fun name member => answers name (inside name member)).eq_of_toText
    (namedToo.rename fun name member => answers name (insideToo name member)) (text.symm.trans textToo)
  rw [MethodType.eq_of_rename injective inside insideToo same]

end Apart

end JarRename
