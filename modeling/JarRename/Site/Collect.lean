import JarRename.ClassFile.Attribute
import JarRename.Code.Scan
import JarRename.Descriptor
import JarRename.Site.Attribute

/-!
**The sites of a class.**

All places of a class that name a class or a member, in order: constants, declarations, attributes (of
the class, its fields and its methods) and operands in code.

* `ClassFile.constantSite?`: the site of a constant;
* `ClassFile.sites`: all sites of a class.
-/

namespace JarRename

/-- The class whose methods make lambdas at run time. -/
def lambdaFactory : String := "java/lang/invoke/LambdaMetafactory"

/-- What the sites of a class are read with: its pool, its name and its bootstrap methods. -/
structure SiteContext where
  pool : Pool
  name : String
  bootstraps : Option (List BootstrapMethod)

namespace SiteContext

/-- The context of a class. -/
def ofClass (file : ClassFile) : Except Fault SiteContext := do
  let name ← file.name
  let bootstraps ← Attribute.findBootstraps? file.pool file.attributes
  return { pool := file.pool, name, bootstraps }

/-! ### Constants -/

/-- The member with an index. -/
def memberSymbol (context : SiteContext) (index : Index) : Except Fault Symbol := do
  let { kind, owner, name, descriptor } ← context.pool.memberRef index
  match kind with
  | .field => return .ofField owner name descriptor none
  | .method | .interfaceMethod => return .ofMethod owner name descriptor none

/-- Whether a member makes lambdas. -/
def isLambdaFactory (member : MemberRef) : Bool :=
  member.owner == lambdaFactory &&
    (member.name == "metafactory" || member.name == "altMetafactory")

/-- The interface method that a call site of a descriptor implements: its result type and the method
type that is the first static argument. -/
def lambdaOf (context : SiteContext) (method : BootstrapMethod) (descriptor : String) :
    Except Fault (Option LambdaTarget) := do
  if !Descriptor.isMethod descriptor then return none
  else
    match (← MethodType.parse descriptor).result with
    | .object interface =>
      match method.arguments with
      | [] => return none
      | argument :: _ =>
        match ← context.pool.get argument with
        | .methodType index => return some { interface, methodDescriptor := ← context.pool.utf8 index }
        | _ => return none
    | _ => return none

/-- The interface method that a computed constant of a descriptor implements, if its bootstrap method
makes lambdas. -/
def lambdaTarget? (context : SiteContext) (bootstrap : UInt16) (descriptor : String) :
    Except Fault (Option LambdaTarget) := do
  match context.bootstraps with
  | none => throw .noBootstraps
  | some methods =>
    match methods[bootstrap.toNat]? with
    | none => throw (.bootstrapOutside bootstrap)
    | some method =>
      let (_, target) ← context.pool.methodHandle method.handle
      let factory ← context.pool.memberRef target
      if isLambdaFactory factory then context.lambdaOf method descriptor else return none

/-- The computed constant or call site of a bootstrap method, a name and a type. -/
def callSite (context : SiteContext) (bootstrap : UInt16) (nameAndType : Index) :
    Except Fault Symbol := do
  let (name, descriptor) ← context.pool.nameAndType nameAndType
  let lambda ← context.lambdaTarget? bootstrap descriptor
  return .callSite { name, descriptor, lambda }

/-- The site of the constant with an index, if it names anything. A method handle names the member it
points at. -/
def constantSite? (context : SiteContext) (index : Index) : Except Fault (Option Site) := do
  match ← context.pool.get index with
  | .classRef _ =>
    let name ← context.pool.className index
    return some { location := .classConstant index, symbol := .ofClass name }
  | .field .. | .method .. | .interfaceMethod .. =>
    let symbol ← context.memberSymbol index
    return some { location := .memberConstant index, symbol }
  | .methodType descriptor =>
    let descriptor ← context.pool.utf8 descriptor
    return some { location := .methodTypeConstant index, symbol := .ofDescriptor descriptor }
  | .dynamic bootstrap nameAndType | .invokeDynamic bootstrap nameAndType =>
    let symbol ← context.callSite bootstrap nameAndType
    return some { location := .dynamicConstant index, symbol }
  | .methodHandle _ target =>
    let symbol ← context.memberSymbol target
    return some { location := .memberConstant target, symbol }
  | _ => return none

/-- The sites of the constants. Method handles have none of their own. -/
def constantSites (context : SiteContext) : Except Fault (List Site) := do
  let found ← context.pool.entries.mapM fun (index, constant) =>
    if constant.kind = .methodHandle then pure none else context.constantSite? index
  return found.filterMap id

/-! ### Declarations -/

/-- The sites of the declarations of fields. -/
def fieldSites (context : SiteContext) (fields : List Member) : Except Fault (List Site) :=
  fields.zipIdx.mapM fun (field, position) => do
    let name ← context.pool.utf8 field.name
    let descriptor ← context.pool.utf8 field.descriptor
    return { location := .fieldDeclaration position,
             symbol := .ofField context.name name descriptor (some field.flags) }

/-- The sites of the declarations of methods. -/
def methodSites (context : SiteContext) (methods : List Member) : Except Fault (List Site) :=
  methods.zipIdx.mapM fun (method, position) => do
    let name ← context.pool.utf8 method.name
    let descriptor ← context.pool.utf8 method.descriptor
    return { location := .methodDeclaration position,
             symbol := .ofMethod context.name name descriptor (some method.flags) }

/-! ### Attributes -/

/-- Whether attributes of an owner belong to a method. -/
def isMethodOwner : Owner → Bool
  | .ofMethod _ => true
  | _ => false

/-- The sites of an attribute at a position. -/
def attributeSites (context : SiteContext) (owner : Owner) (item : Attribute) (position : Nat) :
    Except Fault (List Site) := do
  let name ← context.pool.utf8 item.name
  let found ←
    (Mention.ofAttribute context.pool context.name (isMethodOwner owner) name item.data).mapError
      (.badAttribute name)
  return found.map fun { offset, symbol } =>
    { location := .inAttribute owner position offset, symbol }

/-- The sites of a table of attributes. -/
def tableSites (context : SiteContext) (owner : Owner) (items : List Attribute) :
    Except Fault (List Site) := do
  let found ← items.zipIdx.mapM fun (item, position) => context.attributeSites owner item position
  return found.flatten

/-- The sites of the attributes of members, whose owner is given by their position. -/
def memberTableSites (context : SiteContext) (owner : Nat → Owner) (members : List Member) :
    Except Fault (List Site) := do
  let found ← members.zipIdx.mapM fun (member, position) =>
    context.tableSites (owner position) member.attributes
  return found.flatten

/-! ### Operands -/

/-- The site of an operand in the code of the method at a position, if its constant names anything. -/
def operandSite? (context : SiteContext) (position : Nat) (operand : Operand) :
    Except Fault (Option Site) := do
  let site? ← context.constantSite? operand.index
  return site?.map fun site =>
    { site with location := .instruction position operand.pc operand.index }

/-- The sites of the operands in the code of the method at a position. -/
def codeSites (context : SiteContext) (method : Member) (position : Nat) :
    Except Fault (List Site) := do
  match ← Attribute.findCode? context.pool method.attributes with
  | none => return []
  | some code =>
    let operands ← Code.operands code.code
    let found ← operands.mapM (context.operandSite? position)
    return found.filterMap id

/-- The sites of the operands in the code of methods. -/
def instructionSites (context : SiteContext) (methods : List Member) : Except Fault (List Site) := do
  let found ← methods.zipIdx.mapM fun (method, position) => context.codeSites method position
  return found.flatten

end SiteContext

namespace ClassFile

/-- All sites of a class, in order. -/
def sites (file : ClassFile) : Except Fault (List Site) := do
  let context ← SiteContext.ofClass file
  let constants ← context.constantSites
  let fields ← context.fieldSites file.fields
  let methods ← context.methodSites file.methods
  let classTable ← context.tableSites .ofClass file.attributes
  let fieldTables ← context.memberTableSites .ofField file.fields
  let methodTables ← context.memberTableSites .ofMethod file.methods
  let instructions ← context.instructionSites file.methods
  return constants ++ fields ++ methods ++ classTable ++ fieldTables ++ methodTables ++ instructions

end ClassFile

end JarRename
