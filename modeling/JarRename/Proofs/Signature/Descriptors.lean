import JarRename.Proofs.Descriptor
import JarRename.Proofs.Signature.Renamed

/-!
**Descriptors are signatures.**

A descriptor whose class names have no character that a signature gives a meaning is the signature of a tree without
type arguments and suffixes. Both ways to rename it take its classes one by one, so they agree for every renaming.

* `Spells`: a tree with the characters of a type, under every renaming;
* `rename_fieldText`, `rename_methodText`: the descriptors of fields and methods, renamed as signatures;
* `rename_descriptor`: renaming a descriptor as a signature or as a descriptor.
-/

namespace JarRename.Signature

/-- A tree with the characters of a type, which stays so under every renaming. -/
structure Spells (tree : Generic) (type : FieldType) : Prop where
  same : tree.chars = type.chars
  renamed : ∀ rename, tree.parts.flatMap (Part.render rename) = (type.rename rename).chars

/-- A class name without the characters that begin type arguments and suffixes. -/
def IsPlain (name : String) : Prop :=
  '<' ∉ name.toList ∧ '.' ∉ name.toList

/-- There is a tree for every type whose class has a plain name. -/
theorem exists_spells {type : FieldType} (named : type.WellNamed)
    (plain : ∀ name, type.className? = some name → IsPlain name) : ∃ tree, Spells tree type := by
  induction type with
  | base base => exact ⟨.base base, by rw [Generic.chars, FieldType.chars], fun rename => by rw [Generic.parts]; rfl⟩
  | object className =>
    obtain ⟨noArguments, noSuffix⟩ := plain className rfl
    have word : ∀ c ∈ className.toList, c ∉ ['<', '.', ';'] := by
      intro c member stops
      simp only [List.mem_cons, List.not_mem_nil, or_false] at stops
      rcases stops with rfl | rfl | rfl
      · exact noArguments member
      · exact noSuffix member
      · exact named.2 member
    refine ⟨.object ⟨className.toList, word⟩ .none .none, rfl, fun rename => ?_⟩
    have new : newName rename className.toList = (renameOrKeep rename className).toList := by
      rw [newName, String.ofList_toList]
    rw [FieldType.rename, FieldType.chars, ← new]
    rfl
  | array element ih =>
    obtain ⟨tree, same, renamed⟩ := ih named plain
    refine ⟨.array tree, ?_, fun rename => ?_⟩
    · rw [Generic.chars, FieldType.chars, same]
    · rw [Generic.parts, List.flatMap_cons, renamed rename, FieldType.rename, FieldType.chars]
      rfl

theorem exists_spells_all {types : List FieldType} (named : ∀ type ∈ types, type.WellNamed)
    (plain : ∀ type ∈ types, ∀ name, type.className? = some name → IsPlain name) :
    ∃ trees, List.Forall₂ Spells trees types := by
  induction types with
  | nil => exact ⟨[], .nil⟩
  | cons first later ih =>
    rw [List.forall_mem_cons] at named plain
    obtain ⟨tree, here⟩ := exists_spells named.1 plain.1
    obtain ⟨trees, behind⟩ := ih named.2 plain.2
    exact ⟨tree :: trees, .cons here behind⟩

theorem chars_of_spells {trees : List Generic} {types : List FieldType} (spells : List.Forall₂ Spells trees types) :
    trees.flatMap Generic.chars = types.flatMap FieldType.chars := by
  induction spells with
  | nil => rfl
  | cons first later ih => rw [List.flatMap_cons, List.flatMap_cons, first.same, ih]

theorem render_of_spells (rename : String → Option String) {trees : List Generic} {types : List FieldType}
    (spells : List.Forall₂ Spells trees types) :
    (trees.flatMap Generic.parts).flatMap (Part.render rename) =
      (types.map (FieldType.rename rename)).flatMap FieldType.chars := by
  rw [List.flatMap_map]
  refine render_flatMap (fun tree type one => ?_) spells
  exact one.renamed rename

variable (rename : String → Option String)

/-- The descriptor of a field is renamed as a signature. -/
theorem rename_fieldText {type : FieldType} (named : type.WellNamed)
    (plain : ∀ name, type.className? = some name → IsPlain name) :
    Signature.rename rename type.toText = .ok (type.rename rename).toText := by
  obtain ⟨tree, same, renamed⟩ := exists_spells named plain
  have text : (Tree.ofField tree).toText = type.toText := by
    rw [Tree.toText, Tree.chars, same, FieldType.toText]
  have separated : (Tree.ofField tree).Separated := .nil
  rw [← text, rename_toText separated, Tree.parts, renamed rename, FieldType.toText]

/-- The descriptor of a method is renamed as a signature. -/
theorem rename_methodText {type : MethodType} (named : type.WellNamed)
    (plain : ∀ name ∈ type.classNames, IsPlain name) :
    Signature.rename rename type.toText = .ok (type.rename rename).toText := by
  obtain ⟨trees, spells⟩ := exists_spells_all named.1 fun parameter listed name found =>
    plain name (MethodType.mem_classNames.mpr (.inl ⟨parameter, listed, found⟩))
  obtain ⟨result, same, renamed⟩ := exists_spells named.2 fun name found =>
    plain name (MethodType.mem_classNames.mpr (.inr found))
  have text : (Tree.ofMethod [] trees result []).toText = type.toText := by
    simp only [Tree.toText, Tree.chars, chars_of_spells spells, same, List.flatMap_nil, List.append_nil]
    rfl
  have separated : (Tree.ofMethod [] trees result []).Separated := .nil
  have parts : (Tree.ofMethod [] trees result []).parts.flatMap (Part.render rename) = (type.rename rename).chars := by
    simp only [Tree.parts, List.flatMap_append, List.flatMap_cons, render_of_spells rename spells, renamed rename,
      List.flatMap_nil, List.append_nil]
    rfl
  rw [← text, rename_toText separated, parts, MethodType.toText]

/-- **A descriptor is renamed in the same way as a signature and as a descriptor**, if it has only plain class names. -/
theorem rename_descriptor {descriptor : String}
    (accepted : (∃ type, FieldType.parse descriptor = .ok type) ∨ ∃ type, MethodType.parse descriptor = .ok type)
    (plain : ∀ name ∈ Descriptor.classNames descriptor, IsPlain name) :
    ∃ new, Signature.rename rename descriptor = .ok new ∧ Descriptor.rename rename descriptor = .ok new := by
  unfold Descriptor.classNames at plain
  rcases accepted with ⟨type, parsed⟩ | ⟨type, parsed⟩
  · obtain ⟨named, rfl⟩ := FieldType.parse_eq_ok.mp parsed
    rw [Descriptor.isMethod_fieldText, if_neg Bool.false_ne_true, parsed] at plain
    refine ⟨(type.rename rename).toText, rename_fieldText rename named fun name found => ?_, ?_⟩
    · exact plain name (Option.mem_toList.mpr found)
    · exact Descriptor.rename_eq_ok.mpr (.inr ⟨type, named, rfl, rfl⟩)
  · obtain ⟨named, rfl⟩ := MethodType.parse_eq_ok.mp parsed
    rw [Descriptor.isMethod_toText, if_pos rfl, parsed] at plain
    refine ⟨(type.rename rename).toText, rename_methodText rename named plain, ?_⟩
    exact Descriptor.rename_eq_ok.mpr (.inl ⟨type, named, rfl, rfl⟩)

/-- A method that takes arrays and gives an object. -/
def arrayMethod : MethodType where
  parameters := [.array (.object "a"), .array (.array (.base .int)), .base .long]
  result := .object "b"

theorem wellNamed_arrayMethod : arrayMethod.WellNamed := by
  simp [arrayMethod, MethodType.WellNamed, FieldType.WellNamed, IsClassName]

theorem rename_descriptor_arrays : arrayMethod.toText = "([La;[[IJ)Lb;" ∧
    ∃ new, Signature.rename entityNames arrayMethod.toText = .ok new ∧
      Descriptor.rename entityNames arrayMethod.toText = .ok new := by
  have parsed := MethodType.parse_eq_ok.mpr ⟨wellNamed_arrayMethod, rfl⟩
  have names : Descriptor.classNames arrayMethod.toText = ["a", "b"] := by
    rw [Descriptor.classNames, Descriptor.isMethod_toText, if_pos rfl, parsed]
    rfl
  refine ⟨by decide, rename_descriptor entityNames (.inr ⟨_, parsed⟩) ?_⟩
  rw [names]
  unfold IsPlain
  decide

end JarRename.Signature
