import JarRename.Jar.Name
import JarRename.Proofs.Text.Lines
import Mathlib.Data.List.Infix

/-!
**Paths of classes.**

A class of a hierarchy stands at the path of its name, and moves to the path of its new name. A class below the
directory `META-INF` may stand behind more of the path; it moves within that directory and is part of no hierarchy.

* `Jar.isOutside`, `Jar.className?_eq_some`: the names of classes of a hierarchy and their paths;
* `Jar.StandsAt`, `Jar.name_of_standsAt`: where a class may stand;
* `Jar.movedName_root`, `Jar.className?_movedName`: where it moves.
-/

namespace JarRename.Jar

/-- The directory of classes that are part of no hierarchy. -/
def metaStart : List Char := "META-INF/".toList

/-- A class of this name is part of no hierarchy. -/
def isOutside (name : List Char) : Bool :=
  metaStart.isPrefixOf name || name.isEmpty || Text.afterLast '/' name == "module-info".toList ||
    Text.afterLast '/' name == "package-info".toList

/-- The path of a class at the root of a jar. -/
def rootPath (name : String) : String :=
  name ++ ".class"

variable {path name new : String} {before : List Char}

theorem toList_rootPath (name : String) : (rootPath name).toList = name.toList ++ classEnding :=
  String.toList_append

theorem rootPath_injective (same : rootPath name = rootPath new) : name = new := by
  have chars := congrArg String.toList same
  rw [toList_rootPath, toList_rootPath] at chars
  exact String.toList_injective (List.append_cancel_right chars)

/-- **A path stands for a class** if it is that of a name that is part of a hierarchy. -/
theorem className?_eq_some : className? path = some name ↔ path = rootPath name ∧ isOutside name.toList = false := by
  have opened : className? path = (Text.dropEnd? classEnding path.toList).bind fun chars =>
      if isOutside chars then none else some (String.ofList chars) := rfl
  rw [opened, Option.bind_eq_some_iff]
  simp only [Text.dropEnd?_eq_some]
  constructor
  · rintro ⟨chars, split, found⟩
    split_ifs at found with outside
    cases found
    rw [String.toList_ofList]
    refine ⟨String.toList_injective ?_, Bool.eq_false_iff.mpr outside⟩
    rw [toList_rootPath, String.toList_ofList, split]
  · rintro ⟨rfl, inside⟩
    refine ⟨name.toList, toList_rootPath name, ?_⟩
    rw [if_neg (Bool.eq_false_iff.mp inside), String.ofList_toList]

/-- The path of a class of a hierarchy is that of an entry that is renamed as a class. -/
theorem isClassEntry_of_className? (found : className? path = some name) : isClassEntry path = true := by
  obtain ⟨rfl, inside⟩ := className?_eq_some.mp found
  have simple : Text.afterLast '/' name.toList ≠ "module-info".toList := by
    intro same
    simp [isOutside, same] at inside
  have ending : "module-info.class".toList = "module-info".toList ++ classEnding := by decide
  have unmarked : '/' ∉ classEnding := by decide
  rw [isClassEntry, toList_rootPath, Text.dropEnd?_eq_some.mpr rfl, Text.afterLast_append unmarked, ending,
    Option.isSome_some, Bool.true_and, bne_iff_ne, ne_eq, List.append_left_inj]
  exact simple

/-! ### Moving -/

/-- A class moves behind what stands in front of its name. -/
theorem movedName_behind (split : path.toList = before ++ name.toList ++ classEnding)
    (opens : before = [] ∨ before.getLast? = some '/') :
    movedName path name new = String.ofList (before ++ new.toList ++ classEnding) := by
  have dropped : (Text.dropEnd? classEnding path.toList).bind (Text.dropEnd? name.toList) = some before := by
    rw [Text.dropEnd?_eq_some.mpr split, Option.bind_some, Text.dropEnd?_eq_some.mpr rfl]
  have moves : (before.isEmpty || before.getLast? == some '/') = true := by
    rcases opens with rfl | slash
    · rfl
    · rw [slash, beq_self_eq_true, Bool.or_true]
  rw [movedName, dropped]
  exact if_pos moves

/-- **A class at the root** moves to the path of its new name. -/
theorem movedName_root (name new : String) : movedName (rootPath name) name new = rootPath new := by
  have split : (rootPath name).toList = [] ++ name.toList ++ classEnding := toList_rootPath name
  rw [movedName_behind split (.inl rfl), List.nil_append, ← toList_rootPath, String.ofList_toList]

/-- A class may stand at a path: at that of its name, or below the directory of classes that are part of no hierarchy
and there at the end of the path. -/
def StandsAt (path name : String) : Prop :=
  if metaStart.isPrefixOf path.toList then
    ∃ before, before.getLast? = some '/' ∧ path.toList = before ++ name.toList ++ classEnding
  else path = rootPath name

/-- A class of a hierarchy stands outside the directory of classes that are part of none. -/
theorem atRoot_of_className? (found : className? path = some name) : ¬metaStart.isPrefixOf path.toList = true := by
  obtain ⟨rfl, inside⟩ := className?_eq_some.mp found
  rw [toList_rootPath, List.isPrefixOf_iff_prefix]
  intro leads
  have whole : metaStart <+: name.toList := by
    rcases List.prefix_or_prefix_of_prefix leads (List.prefix_append name.toList classEnding) with within | short
    · exact within
    · -- no character of the directory is the dot that follows the name
      have each : ∀ start ∈ metaStart.inits, metaStart <+: start ++ classEnding → metaStart <+: start := by decide
      exact each name.toList ((List.mem_inits _ _).mpr short) leads
  rw [isOutside, List.isPrefixOf_iff_prefix.mpr whole] at inside
  exact Bool.false_ne_true inside.symm

/-- **A class of a hierarchy stands at the root**, under its own name. -/
theorem name_of_standsAt (found : className? path = some name) (stands : StandsAt path new) : new = name := by
  rw [StandsAt, if_neg (atRoot_of_className? found), (className?_eq_some.mp found).1] at stands
  exact (rootPath_injective stands).symm

/-- What ends with a slash and starts a path in a directory leads into that directory. -/
theorem metaStart_prefix {rest : List Char} (slash : before.getLast? = some '/')
    (inside : metaStart <+: before ++ rest) : metaStart <+: before := by
  rcases List.prefix_or_prefix_of_prefix inside (List.prefix_append before rest) with leads | short
  · exact leads
  · -- the first slash of the path is the last character of the directory
    have each : ∀ start ∈ metaStart.inits, start.getLast? = some '/' → metaStart <+: start := by decide
    exact each before ((List.mem_inits _ _).mpr short) slash

/-- **A class outside the root** moves to a path that stands for no class of a hierarchy. -/
theorem className?_movedName (outside : metaStart.isPrefixOf path.toList = true) (stands : StandsAt path name)
    (new : String) : className? (movedName path name new) = none := by
  rw [StandsAt, if_pos outside] at stands
  obtain ⟨before, slash, split⟩ := stands
  rw [List.isPrefixOf_iff_prefix, split, List.append_assoc] at outside
  have leads := metaStart_prefix slash outside
  refine Option.eq_none_iff_forall_ne_some.mpr fun found some => ?_
  obtain ⟨same, inside⟩ := className?_eq_some.mp some
  have chars := congrArg String.toList same
  rw [movedName_behind split (.inr slash), String.toList_ofList, toList_rootPath] at chars
  have isMeta : metaStart.isPrefixOf found.toList = true := by
    rw [List.isPrefixOf_iff_prefix, ← List.append_cancel_right chars]
    exact leads.trans (List.prefix_append _ _)
  rw [isOutside, isMeta] at inside
  exact Bool.false_ne_true inside.symm

end JarRename.Jar
