import JarRename.Proofs.Descriptor

/-!
**Laws of descriptors.**

The texts that are read as a type are exactly the prints of types whose class names can stand in a descriptor. So what
one renaming prints is read again by the next, and two renamings in a row are one.

* `FieldType.wellNamed_iff`, `MethodType.wellNamed_iff`: types that can be read back, by the classes in them;
* `Descriptor.parse_exactly`: reading and printing are inverse to each other;
* `FieldType.eq_of_chars`, `MethodType.wellNamed_of_parse`: types known by their print;
* `renameThen`, `MethodType.rename_rename`: one renaming after another;
* `Descriptor.rename_twice`: a descriptor renamed twice, and back.
-/

namespace JarRename

/-! ### Reading and printing -/

theorem FieldType.wellNamed_iff {type : FieldType} : type.WellNamed ↔ ∀ name ∈ type.className?, IsClassName name := by
  induction type with
  | base base =>
    constructor
    · intro named name member
      cases member
    · intro names
      trivial
  | object className =>
    constructor
    · intro named name member
      cases member
      exact named
    · intro names
      exact names className rfl
  | array element ih => exact ih

theorem MethodType.wellNamed_iff {type : MethodType} : type.WellNamed ↔ ∀ name ∈ type.classNames, IsClassName name := by
  constructor
  · intro named name member
    rcases mem_classNames.mp member with ⟨parameter, listed, found⟩ | found
    · exact FieldType.wellNamed_iff.mp (named.1 parameter listed) name found
    · exact FieldType.wellNamed_iff.mp named.2 name found
  · intro names
    refine ⟨fun parameter listed => FieldType.wellNamed_iff.mpr fun name found => ?_,
      FieldType.wellNamed_iff.mpr fun name found => ?_⟩
    · exact names name (mem_classNames.mpr (.inl ⟨parameter, listed, found⟩))
    · exact names name (mem_classNames.mpr (.inr found))

/-- **Reading and printing are inverse to each other.** A text is read as a type exactly if it is the print of that
type and every class in the type has a name that is not empty and has no semicolon. -/
theorem Descriptor.parse_exactly :
    (∀ (text : String) (type : FieldType),
      FieldType.parse text = .ok type ↔ text = type.toText ∧ ∀ name ∈ type.className?, IsClassName name) ∧
    ∀ (text : String) (type : MethodType),
      MethodType.parse text = .ok type ↔ text = type.toText ∧ ∀ name ∈ type.classNames, IsClassName name := by
  refine ⟨fun text type => ?_, fun text type => ?_⟩
  · rw [FieldType.parse_eq_ok, FieldType.wellNamed_iff, and_comm]
  · rw [MethodType.parse_eq_ok, MethodType.wellNamed_iff, and_comm]

-- brackets and letters of base types inside a class name are part of it
example : MethodType.parse "([L)V[(;V)[[LL;" =
    .ok { parameters := [.array (.object ")V[("), .base .void], result := .array (.array (.object "L")) } := by
  decide +kernel

/-! ### Types known by their print -/

/-- What is read from a printed type has a name for its class. -/
theorem FieldType.wellNamed_of_read {type : FieldType} {rest : List Char} {found : FieldType × List Char}
    (uncut : ∀ name ∈ type.className?, ';' ∉ name.toList) (read : FieldType.read (type.chars ++ rest) = .ok found) :
    type.WellNamed := by
  induction type generalizing found with
  | base base => trivial
  | object name =>
    refine ⟨?_, uncut name rfl⟩
    rintro rfl
    cases read
  | array element ih =>
    have letter : BaseType.ofLetter? '[' = none := rfl
    rw [chars, List.cons_append, FieldType.read, letter] at read
    simp only [if_true] at read
    split at read
    next inner left done => exact ih uncut done
    next => cases read

/-- A type is known by its characters, whatever follows them. -/
theorem FieldType.eq_of_chars {type other : FieldType} {rest tail : List Char}
    (uncut : ∀ name ∈ type.className?, ';' ∉ name.toList) (named : other.WellNamed)
    (same : type.chars ++ rest = other.chars ++ tail) : type = other ∧ rest = tail := by
  have read := FieldType.read_chars named tail
  rw [← same] at read
  have first := FieldType.wellNamed_of_read uncut read
  rw [FieldType.read_chars first] at read
  exact Prod.mk.inj (Except.ok.inj read)

/-- Parameters are known by their characters, up to the closing parenthesis. -/
theorem MethodType.eq_of_parameters {types others : List FieldType} {rest tail : List Char}
    (uncut : ∀ type ∈ types, ∀ name ∈ type.className?, ';' ∉ name.toList) (named : ∀ other ∈ others, other.WellNamed)
    (same : types.flatMap FieldType.chars ++ ')' :: rest = others.flatMap FieldType.chars ++ ')' :: tail) :
    types = others ∧ rest = tail := by
  induction types generalizing others with
  | nil =>
    cases others with
    | nil => exact ⟨rfl, List.tail_eq_of_cons_eq same⟩
    | cons other others =>
      rw [List.flatMap_cons, List.append_assoc] at same
      exact absurd same.symm chars_ne_close
  | cons type types ih =>
    cases others with
    | nil =>
      rw [List.flatMap_cons, List.append_assoc] at same
      exact absurd same chars_ne_close
    | cons other others =>
      rw [List.flatMap_cons, List.flatMap_cons, List.append_assoc, List.append_assoc] at same
      obtain ⟨uncutFirst, uncutRest⟩ := List.forall_mem_cons.mp uncut
      obtain ⟨namedFirst, namedRest⟩ := List.forall_mem_cons.mp named
      obtain ⟨rfl, later⟩ := FieldType.eq_of_chars uncutFirst namedFirst same
      obtain ⟨rfl, last⟩ := ih uncutRest namedRest later
      exact ⟨rfl, last⟩

/-- **A printed method type that can be read** is well named, if no class in it has a semicolon. -/
theorem MethodType.wellNamed_of_parse {type found : MethodType} (uncut : ∀ name ∈ type.classNames, ';' ∉ name.toList)
    (parsed : MethodType.parse type.toText = .ok found) : type.WellNamed := by
  obtain ⟨named, same⟩ := MethodType.parse_eq_ok.mp parsed
  have chars : type.chars = found.chars := String.ofList_injective same
  obtain ⟨parameters, results⟩ := MethodType.eq_of_parameters
    (fun parameter member name inside => uncut name (mem_classNames.mpr (.inl ⟨parameter, member, inside⟩))) named.1
    (List.tail_eq_of_cons_eq chars)
  obtain ⟨last, -⟩ := FieldType.eq_of_chars (fun name inside => uncut name (mem_classNames.mpr (.inr inside))) named.2
    (congrArg (· ++ []) results)
  have whole : type = found := congrArg₂ MethodType.mk parameters last
  rw [whole]
  exact named

/-! ### Renaming twice -/

/-- One class renaming after another. -/
def renameThen (first second : String → Option String) (name : String) : Option String :=
  some (renameOrKeep second (renameOrKeep first name))

variable {first second : String → Option String}

theorem FieldType.rename_rename (type : FieldType) :
    (type.rename first).rename second = type.rename (renameThen first second) := by
  induction type with
  | base base => rfl
  | object className => rfl
  | array element ih => rw [FieldType.rename, FieldType.rename, ih, FieldType.rename]

theorem MethodType.rename_rename (type : MethodType) :
    (type.rename first).rename second = type.rename (renameThen first second) := by
  have parameters : (type.parameters.map (FieldType.rename first)).map (FieldType.rename second) =
      type.parameters.map (FieldType.rename (renameThen first second)) := by
    rw [List.map_map]
    exact List.map_congr_left fun parameter _ => parameter.rename_rename
  rw [MethodType.rename, MethodType.rename, parameters, FieldType.rename_rename, MethodType.rename]

namespace Descriptor

/-- The classes in the print of a type are those in the type. -/
theorem classNames_toText {type : MethodType} (named : type.WellNamed) : classNames type.toText = type.classNames := by
  rw [classNames, if_pos (isMethod_toText type), MethodType.parse_eq_ok.mpr ⟨named, rfl⟩]

theorem classNames_fieldText {type : FieldType} (named : type.WellNamed) :
    classNames type.toText = type.className?.toList := by
  rw [classNames, isMethod_fieldText, FieldType.parse_eq_ok.mpr ⟨named, rfl⟩]
  rfl

/-- **Two renamings in a row are one.** A descriptor that can be renamed at all can be renamed twice, if the first
renaming answers the classes in it with names that descriptors can hold. The outcome is that of both renamings at once,
and the descriptor itself if the second renaming takes the classes in it back to their names. -/
theorem rename_twice (first second : String → Option String) {descriptor : String}
    (accepted : ∃ rename new, Descriptor.rename rename descriptor = .ok new)
    (answers : ∀ name ∈ classNames descriptor, ∀ new, first name = some new → IsClassName new) :
    ∃ middle new, Descriptor.rename first descriptor = .ok middle ∧ Descriptor.rename second middle = .ok new ∧
      Descriptor.rename (renameThen first second) descriptor = .ok new ∧
      ((∀ name ∈ classNames descriptor, renameOrKeep second (renameOrKeep first name) = name) → new = descriptor) := by
  obtain ⟨rename, other, done⟩ := accepted
  obtain ⟨type, named, rfl, -⟩ | ⟨type, named, rfl, -⟩ := rename_eq_ok.mp done
  · rw [classNames_toText named] at answers ⊢
    refine ⟨(type.rename first).toText, ((type.rename first).rename second).toText,
      rename_eq_ok.mpr (.inl ⟨type, named, rfl, rfl⟩),
      rename_eq_ok.mpr (.inl ⟨type.rename first, named.rename answers, rfl, rfl⟩), ?_, ?_⟩
    · exact rename_eq_ok.mpr (.inl ⟨type, named, rfl, by rw [type.rename_rename]⟩)
    · intro undone
      rw [type.rename_rename, MethodType.rename_eq_self undone]
  · rw [classNames_fieldText named] at answers ⊢
    have readable := named.rename fun name found => answers name (Option.mem_toList.mpr found)
    refine ⟨(type.rename first).toText, ((type.rename first).rename second).toText,
      rename_eq_ok.mpr (.inr ⟨type, named, rfl, rfl⟩),
      rename_eq_ok.mpr (.inr ⟨type.rename first, readable, rfl, rfl⟩), ?_, ?_⟩
    · exact rename_eq_ok.mpr (.inr ⟨type, named, rfl, by rw [type.rename_rename]⟩)
    · intro undone
      rw [type.rename_rename, FieldType.rename_eq_self fun name found => undone name (Option.mem_toList.mpr found)]

/-- A renaming of `a` to `b` and of `b` to `c`. -/
def shift (name : String) : Option String :=
  if name = "a" then some "b" else if name = "b" then some "c" else none

/-- The renaming back from `c` to `b` and from `b` to `a`. -/
def shiftBack (name : String) : Option String :=
  if name = "c" then some "b" else if name = "b" then some "a" else none

theorem rename_twice_shifted :
    Descriptor.rename shift "([La;Lb;I)[[Ld;" = .ok "([Lb;Lc;I)[[Ld;" ∧
      Descriptor.rename shiftBack "([Lb;Lc;I)[[Ld;" = .ok "([La;Lb;I)[[Ld;" := by
  have names : classNames "([La;Lb;I)[[Ld;" = ["a", "b", "d"] := by decide +kernel
  have there : Descriptor.rename shift "([La;Lb;I)[[Ld;" = .ok "([Lb;Lc;I)[[Ld;" := by decide +kernel
  have answers : ∀ name ∈ ["a", "b", "d"], ∀ new, shift name = some new → IsClassName new := by
    intro name member new answered
    rcases List.mem_cons.mp member with rfl | member
    · cases answered
      exact ⟨by decide, by decide⟩
    rcases List.mem_cons.mp member with rfl | member
    · cases answered
      exact ⟨by decide, by decide⟩
    · cases List.mem_singleton.mp member
      cases answered
  obtain ⟨middle, new, renamed, again, -, back⟩ :=
    rename_twice shift shiftBack ⟨shift, _, there⟩ (names ▸ answers)
  cases there.symm.trans renamed
  rw [back (by rw [names]; decide)] at again
  exact ⟨there, again⟩

end Descriptor

end JarRename
