import JarRename.Proofs.Text.Lines
import JarRename.Renamer

/-!
**Simple names of nested classes.**

The simple name of a nested class follows from the new name of the class. The last `$` is looked for in the whole new
name, package and all, and digits behind it are left out because they number local and anonymous classes. So what is
stored is a name of the class exactly if the last `$` stands behind the package and not only digits stand behind it.

* `IsUnqualified`, `IsInternalName`: names in a package, and names of classes with their packages;
* `Renamer.simpleName`, `Renamer.mapInnerName_eq_some`: the simple name in a new name, and when it is stored;
* `Renamer.HasSimpleName`: new names that have a simple name of their own;
* `Renamer.mapInnerName_legal`: a stored simple name is legal exactly for such new names.
-/

namespace JarRename

/-! ### Names -/

/-- A name of a class in its package. -/
def IsUnqualified (name : List Char) : Prop :=
  name ≠ [] ∧ ∀ c ∈ name, c ∉ ['.', ';', '[', '/']

-- along the characters of the name, and not along all characters that there are
instance (name : List Char) : Decidable (IsUnqualified name) :=
  have := List.decidableBAll (fun c => c ∉ ['.', ';', '[', '/']) name
  inferInstanceAs (Decidable (_ ∧ _))

/-- A name of a class with its packages in front. -/
def IsInternalName (name : List Char) : Prop :=
  ∀ segment ∈ Text.pieces (· == '/') name, IsUnqualified segment

instance (name : List Char) : Decidable (IsInternalName name) :=
  List.decidableBAll IsUnqualified (Text.pieces (· == '/') name)

/-- A part of a name of a class is a name in a package, if it has characters and none of them is a slash. -/
theorem IsInternalName.unqualified {name part : List Char} (named : IsInternalName name) (inside : part <:+: name)
    (filled : part ≠ []) (unmarked : '/' ∉ part) : IsUnqualified part := by
  refine ⟨filled, fun c member => ?_⟩
  have uncut : (c == '/') = false := beq_false_of_ne (ne_of_mem_of_not_mem member unmarked)
  have standing : ∃ segment ∈ Text.pieces (· == '/') name, c ∈ segment :=
    Text.exists_piece (inside.subset member) uncut
  obtain ⟨segment, listed, found⟩ := standing
  exact (named segment listed).2 c found

namespace Renamer

/-- Every new name of a class is a name of a class. -/
def AnswersInternalNames (renamer : Renamer) : Prop :=
  ∀ name new, renamer.mapClass name = some new → IsInternalName new.toList

/-! ### Simple names -/

/-- The simple name in the new name of a nested class. -/
def simpleName (new : List Char) : List Char :=
  (Text.afterLast '$' new).dropWhile Char.isDigit

variable {renamer : Renamer} {inner name simple : String} {new : List Char}

/-- A simple name is stored if there is a new one and not only the package of the class changes. -/
theorem mapInnerName_eq_some : renamer.mapInnerName inner name = some simple ↔
    ∃ new, renamer.mapClass inner = some new ∧ sameAfterPackage inner.toList new.toList = false ∧
      '$' ∈ new.toList ∧ simple.toList = simpleName new.toList ∧ simple ≠ name := by
  unfold mapInnerName
  cases renamer.mapClass inner with
  | none => simp
  | some new =>
    simp only [Option.bind_eq_bind, Option.bind_some, Option.some.injEq, exists_eq_left']
    rw [← simpleName]
    constructor
    · intro found
      split_ifs at found with keeps same
      cases found
      rw [Bool.or_eq_true, Bool.not_eq_true', not_or] at keeps
      exact ⟨by simpa using keeps.1, by simpa using keeps.2, String.toList_ofList, same⟩
    · intro ⟨moved, nested, isSimple, differs⟩
      rw [← isSimple, String.ofList_toList, moved, if_neg differs]
      simp [nested]

/-- The last `$` of a name stands behind its package, and not only digits stand behind it. -/
def HasSimpleName (new : List Char) : Prop :=
  '$' ∈ Text.afterLast '/' new ∧ (Text.afterLast '$' new).all Char.isDigit = false

instance (new : List Char) : Decidable (HasSimpleName new) :=
  inferInstanceAs (Decidable (_ ∧ _))

/-- A simple name is that of a class: an unqualified name at the end of the name that the class has in its package. -/
def IsSimpleNameOf (simple new : List Char) : Prop :=
  IsUnqualified simple ∧ simple <:+ Text.afterLast '/' new

/-- A simple name has characters if not only digits stand behind the last `$`. -/
theorem simpleName_ne_nil : simpleName new ≠ [] ↔ (Text.afterLast '$' new).all Char.isDigit = false := by
  rw [simpleName, ne_eq, List.dropWhile_eq_nil_iff, ← List.all_eq_true, Bool.not_eq_true]

/-- With its last `$` behind the package, the simple name stands at the end of the name in the package. -/
theorem simpleName_suffix (behind : '$' ∈ Text.afterLast '/' new) : simpleName new <:+ Text.afterLast '/' new := by
  obtain ⟨package, whole⟩ := Text.afterLast_suffix '/' new
  have last : Text.afterLast '$' new = Text.afterLast '$' (Text.afterLast '/' new) := by
    conv_lhs => rw [← whole]
    exact Text.afterLast_append_of_mem behind package
  rw [simpleName, last]
  exact (List.dropWhile_suffix _).trans (Text.afterLast_suffix _ _)

/-- With its last `$` in the package, the simple name reaches over the end of the package. -/
theorem slash_mem_simpleName (nested : '$' ∈ new) (before : '$' ∉ Text.afterLast '/' new) : '/' ∈ simpleName new := by
  have qualified : '/' ∈ new := by
    by_contra plain
    rw [Text.afterLast_of_notMem plain] at before
    exact before nested
  obtain ⟨package, whole⟩ := Text.exists_beforeLast qualified
  have unmarked : '$' ∉ '/' :: Text.afterLast '/' new := by simpa using before
  have tail : Text.afterLast '$' new = Text.afterLast '$' package ++ '/' :: Text.afterLast '/' new := by
    conv_lhs => rw [whole]
    exact Text.afterLast_append unmarked package
  rw [simpleName, tail]
  refine Text.mem_dropWhile (by simp) ?_
  decide

/-- **A simple name that is stored** is the end of the new name of the class. It is a name of the class exactly if the
last `$` of the new name stands behind the package, and not only digits stand behind the `$`. -/
theorem mapInnerName_legal (named : renamer.AnswersInternalNames)
    (mapped : renamer.mapInnerName inner name = some simple) :
    ∃ new, renamer.mapClass inner = some new ∧ simple.toList <:+ new.toList ∧
      (IsSimpleNameOf simple.toList new.toList ↔ HasSimpleName new.toList) := by
  obtain ⟨new, renamed, -, nested, isSimple, -⟩ := mapInnerName_eq_some.mp mapped
  rw [isSimple]
  refine ⟨new, renamed, (List.dropWhile_suffix _).trans (Text.afterLast_suffix _ _), ?_⟩
  constructor
  · intro ⟨legal, atEnd⟩
    refine ⟨?_, simpleName_ne_nil.mp legal.1⟩
    by_contra before
    exact Text.notMem_afterLast '/' new.toList (atEnd.subset (slash_mem_simpleName nested before))
  · intro ⟨behind, numbered⟩
    have atEnd := simpleName_suffix behind
    have inside := (atEnd.trans (Text.afterLast_suffix '/' new.toList)).isInfix
    have unmarked : '/' ∉ simpleName new.toList :=
      fun member => Text.notMem_afterLast '/' new.toList (atEnd.subset member)
    exact ⟨(named inner new renamed).unqualified inside (simpleName_ne_nil.mpr numbered) unmarked, atEnd⟩

/-- A class renamed alone. -/
def ofClass (old new : String) : Renamer where
  mapClass := fun name => if name = old then some new else none
  mapField := fun _ _ _ _ => none
  mapMethod := fun _ _ _ _ => none

theorem answersInternalNames_ofClass (old : String) {new : String} (named : IsInternalName new.toList) :
    (ofClass old new).AnswersInternalNames := by
  intro name answer found
  unfold ofClass at found
  dsimp only at found
  split_ifs at found
  cases found
  exact named

theorem mapInnerName_legal_chunk : (ofClass "a$b" "net/World$1Chunk").AnswersInternalNames ∧
    (ofClass "a$b" "net/World$1Chunk").mapInnerName "a$b" "b" = some "Chunk" ∧
    ∃ new, (ofClass "a$b" "net/World$1Chunk").mapClass "a$b" = some new ∧ "Chunk".toList <:+ new.toList ∧
      (IsSimpleNameOf "Chunk".toList new.toList ↔ HasSimpleName new.toList) := by
  have named : (ofClass "a$b" "net/World$1Chunk").AnswersInternalNames :=
    answersInternalNames_ofClass "a$b" (by decide +kernel)
  have mapped : (ofClass "a$b" "net/World$1Chunk").mapInnerName "a$b" "b" = some "Chunk" := by decide +kernel
  exact ⟨named, mapped, mapInnerName_legal named mapped⟩

/-- The new name `x$y/Z` with a `$` in its package gives the nested class the simple name `y/Z`. -/
theorem not_forall_mapInnerName_legal :
    ¬ ∀ (renamer : Renamer), renamer.AnswersInternalNames → ∀ inner name simple : String,
      renamer.mapInnerName inner name = some simple →
        ∃ new, renamer.mapClass inner = some new ∧
          simple ≠ "" ∧ '/' ∉ simple.toList ∧ simple.toList <:+ Text.afterLast '/' new.toList := by
  intro legal
  have named : (ofClass "a$b" "x$y/Z").AnswersInternalNames := answersInternalNames_ofClass "a$b" (by decide +kernel)
  have mapped : (ofClass "a$b" "x$y/Z").mapInnerName "a$b" "b" = some "y/Z" := by decide +kernel
  obtain ⟨new, -, -, plain, -⟩ := legal _ named "a$b" "b" "y/Z" mapped
  exact plain (by decide +kernel)

end Renamer

end JarRename
