import JarRename.ClassFile.Basic

/-!
**Sites.**

A class refers to classes and members by name only, in its constants, its declarations and some of its
attributes. A site is such a place together with the name it holds.

* `Location`: where a name is stored;
* `Symbol`: what the name stands for;
* `Site`: both.
-/

namespace JarRename

/-- What an attribute belongs to; fields and methods by their position. -/
inductive Owner where
  | ofClass
  | ofField (position : Nat)
  | ofMethod (position : Nat)
  deriving DecidableEq

/-- Where a name is stored in a class file. -/
inductive Location where
  | classConstant (index : Index)
  | memberConstant (index : Index)
  | methodTypeConstant (index : Index)
  | dynamicConstant (index : Index)
  | fieldDeclaration (position : Nat)
  | methodDeclaration (position : Nat)
  /-- An index at an offset inside the contents of an attribute, given by its owner and position. -/
  | inAttribute (owner : Owner) (position offset : Nat)
  /-- An operand in the code of a method. It is renamed through the constant at its index. -/
  | instruction (method pc : Nat) (index : Index)
  deriving DecidableEq

/-- What an owner is called in messages. -/
def Owner.describe : Owner → String
  | ofClass => "Class"
  | ofField position => s!"Field({position})"
  | ofMethod position => s!"Method({position})"

/-- What a location is called in messages. -/
def Location.describe : Location → String
  | classConstant index => s!"ClassConstant({index})"
  | memberConstant index => s!"MemberConstant({index})"
  | methodTypeConstant index => s!"MethodTypeConstant({index})"
  | dynamicConstant index => s!"DynamicConstant({index})"
  | fieldDeclaration position => s!"FieldDeclaration({position})"
  | methodDeclaration position => s!"MethodDeclaration({position})"
  | inAttribute owner position offset =>
    s!"Attribute \x7b owner: {owner.describe}, attribute: {position}, offset: {offset} \x7d"
  | instruction method pc index => s!"Instruction \x7b method: {method}, pc: {pc}, index: {index} \x7d"

/-- The method of a functional interface that a lambda implements. -/
structure LambdaTarget where
  interface : String
  methodDescriptor : String
  deriving DecidableEq

/-- A computed call site or constant. -/
structure CallSite where
  name : String
  descriptor : String
  /-- The implemented method, for call sites that make lambdas. -/
  lambda : Option LambdaTarget
  deriving DecidableEq

/-- What a name stands for. -/
inductive Symbol where
  /-- A class by its name, or an array class by its descriptor. -/
  | ofClass (name : String)
  /-- A field, with its flags if this is its declaration. -/
  | ofField (owner name descriptor : String) (declared : Option Flags)
  /-- A method, with its flags if this is its declaration. -/
  | ofMethod (owner name descriptor : String) (declared : Option Flags)
  | ofDescriptor (descriptor : String)
  | ofSignature (signature : String)
  /-- The simple name of a nested class. -/
  | innerName (inner name : String)
  | recordComponent (owner name descriptor : String)
  | enclosingMethod (owner name descriptor : String)
  | callSite (site : CallSite)
  deriving DecidableEq

/-- A place in a class file that holds a name. -/
structure Site where
  location : Location
  symbol : Symbol
  deriving DecidableEq

/-- Whether a location is an operand in code. -/
def Location.isInstruction : Location → Bool
  | instruction .. => true
  | _ => false

end JarRename
