import JarRename.Hierarchy.Walk
import JarRename.Mapping.Table
import JarRename.Renamer

/-!
**Resolving names through the hierarchy.**

A member without an entry of its own gets the name of the first ancestor that has one. Private and static
declarations are not inherited names, and initialisers keep their names.

* `Resolver`: a table and a graph;
* `Resolver.field?`, `Resolver.method?`: the new names of members;
* `Resolver.renamer`: the renamer of a resolver.
-/

namespace JarRename

/-- A table with the hierarchy that its members are inherited through. -/
structure Resolver where
  table : Table
  graph : Graph

namespace Resolver

/-- The first answer for an owner or one of its ancestors. -/
def inherited? (resolver : Resolver) (owner : String) (answer : String → Option String) :
    Option String :=
  match answer owner with
  | some name => some name
  | none => (resolver.graph.ancestors owner).findSome? answer

/-- The new name of a class. -/
def class? (resolver : Resolver) (name : String) : Option String :=
  resolver.table.class? name

/-- The new name of a field. -/
def field? (resolver : Resolver) (owner name : String) : Option String :=
  resolver.inherited? owner fun owner => resolver.table.field? owner name

/-- The new name of a method. -/
def method? (resolver : Resolver) (owner name descriptor : String) : Option String :=
  resolver.inherited? owner fun owner => resolver.table.method? owner name descriptor

/-- Whether a declaration is private or static. -/
def isUninherited (declared : Option Flags) : Bool :=
  declared.any fun flags => flags &&& 0x000A != 0

/-- Whether a method is an initialiser. -/
def isInitialiser (name : String) : Bool :=
  name.toList.head? == some '<'

/-- The new name of a field, with its flags where it is declared. -/
def mapField (resolver : Resolver) (owner name _descriptor : String) (declared : Option Flags) :
    Option String :=
  if isUninherited declared then resolver.table.field? owner name
  else resolver.field? owner name

/-- The new name of a method, with its flags where it is declared. -/
def mapMethod (resolver : Resolver) (owner name descriptor : String) (declared : Option Flags) :
    Option String :=
  if isInitialiser name then none
  else if isUninherited declared then resolver.table.method? owner name descriptor
  else resolver.method? owner name descriptor

/-- The renamer of a resolver. -/
def renamer (resolver : Resolver) : Renamer where
  mapClass := resolver.class?
  mapField := resolver.mapField
  mapMethod := resolver.mapMethod

end Resolver

end JarRename
