import JarRename.Descriptor
import JarRename.Signature
import JarRename.Site.Basic
import JarRename.Text.Blank

/-!
**Renamers.**

A renamer answers which new name a class, a field or a method gets, or `none` if it keeps its name. The
answers for everything else that holds a name follow from these three.

* `Renamer`: the three answers;
* `Renamer.mapType`, `Renamer.mapDescriptor`, `Renamer.mapSignature`, `Renamer.mapInnerName`,
  `Renamer.mapCallSiteName`: what follows from them.
-/

namespace JarRename

/-- The answers to rename queries. Members are asked about with their owner, name and descriptor, and
with their flags where they are declared. -/
structure Renamer where
  mapClass : String → Option String
  mapField : (owner name descriptor : String) → (declared : Option Flags) → Option String
  mapMethod : (owner name descriptor : String) → (declared : Option Flags) → Option String

namespace Renamer

/-- A descriptor with its classes renamed. -/
def mapDescriptor (renamer : Renamer) (descriptor : String) : Except Fault String :=
  Descriptor.rename renamer.mapClass descriptor

/-- A generic signature with its classes renamed. -/
def mapSignature (renamer : Renamer) (signature : String) : Except Fault String :=
  Signature.rename renamer.mapClass signature

/-- Whether a class constant names an array class, which it does by a descriptor. -/
def isArray (name : String) : Bool :=
  name.toList.head? == some '['

/-- The new name in a class constant. -/
def mapType (renamer : Renamer) (name : String) : Except Fault (Option String) :=
  if isArray name then do
    let mapped ← renamer.mapDescriptor name
    return if mapped = name then none else some mapped
  else return renamer.mapClass name

/-- Whether two class names have packages and agree after them. -/
def sameAfterPackage (first second : List Char) : Bool :=
  first.contains '/' && second.contains '/' &&
    Text.afterLast '/' first == Text.afterLast '/' second

/-- The new simple name of a nested class. It is what follows the last `$` of the new name without the
digits in front, unless only the package of the class changes or there is no `$`. -/
def mapInnerName (renamer : Renamer) (inner name : String) : Option String := do
  let mapped ← renamer.mapClass inner
  let chars := mapped.toList
  if sameAfterPackage inner.toList chars || !chars.contains '$' then none
  else
    let simple := String.ofList ((Text.afterLast '$' chars).dropWhile Char.isDigit)
    if simple = name then none else some simple

/-- The new name of a call site that makes lambdas, which is that of the method they implement. -/
def mapCallSiteName (renamer : Renamer) (site : CallSite) : Option String := do
  let lambda ← site.lambda
  renamer.mapMethod lambda.interface site.name lambda.methodDescriptor none

end Renamer

end JarRename
