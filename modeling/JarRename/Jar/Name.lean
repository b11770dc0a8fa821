import JarRename.Text.Blank

/-!
**The names of class entries.**

A class stands in a jar or a directory at the path of its name. Some class files are no part of a hierarchy:
overrides for particular versions, and the descriptions of modules and packages.

* `Jar.className?`: the class that a path stands for;
* `Jar.isClassEntry`: whether an entry is renamed as a class;
* `Jar.movedName`: where a renamed class goes.
-/

namespace JarRename.Jar

/-- The end of the paths of class files. -/
def classEnding : List Char := ".class".toList

/-- The class that a path stands for, if it belongs to a hierarchy. -/
def className? (path : String) : Option String := do
  let name ← Text.dropEnd? classEnding path.toList
  let simple := Text.afterLast '/' name
  if "META-INF/".toList.isPrefixOf name || name.isEmpty || simple == "module-info".toList ||
      simple == "package-info".toList then none
  else some (String.ofList name)

/-- Whether an entry is renamed as a class. The description of a module is not. -/
def isClassEntry (name : String) : Bool :=
  (Text.dropEnd? classEnding name.toList).isSome &&
    Text.afterLast '/' name.toList != "module-info.class".toList

/-- Where a renamed class goes: to the path of its new name, behind whatever stood in front of the path of
its old name. A class that does not stand at the path of its name stays there. -/
def movedName (entry oldName newName : String) : String :=
  match (Text.dropEnd? classEnding entry.toList).bind (Text.dropEnd? oldName.toList) with
  | some before =>
    if before.isEmpty || before.getLast? == some '/' then
      String.ofList (before ++ newName.toList ++ classEnding)
    else entry
  | none => entry

end JarRename.Jar
