import JarRename.Proofs.ClassFile.Header
import JarRename.Proofs.Draft.Steps
import JarRename.Proofs.Renaming.Validity

/-!
**Finished classes.**

Finishing a draft puts its bootstrap methods and the code of its methods into attributes. The class realises the plan
of the draft, and format checking accepts it if it accepts the method handles and the code that went in. So the bytes
of a class that is built are read as that class again.

* `Attribute.HoldsCode`, `Member.RealisesMethod`: methods with their code;
* `ClassFile.Realises`: a class that is as its plan says;
* `Draft.leaves_closeMethod`, `Draft.realises_of_finish`: finishing;
* `DraftStep.Allowed`: what format checking asks of a step;
* `Draft.parse_of_toBytes`: a class that is built is read again from its bytes.
-/

namespace JarRename

/-! ### Methods with their code -/

/-- The attribute holds the instructions and the nested attributes of a method, without exception handlers. -/
structure Attribute.HoldsCode (pool : Pool) (item : Attribute) (code : Bytes) (planned : List (String × Bytes)) :
    Prop where
  name : pool.utf8 item.name = .ok "Code"
  contents : ∃ attributes,
    decode "Code" (CodeAttribute.read pool) item = .ok
      { maxStack := Draft.codeLimit, maxLocals := Draft.codeLimit, code, handlers := [], attributes } ∧
    List.Forall₂ (Attribute.Realises pool) attributes planned

/-- **A finished method**: its code stands in front of its declared attributes. -/
inductive Member.RealisesMethod (pool : Pool) : Member → PlannedMethod → Prop
  | bare {member : Member} {planned : PlannedMethod} (none : planned.code = none)
      (realises : member.Realises pool planned.member) : RealisesMethod pool member planned
  | coded {member : Member} {planned : PlannedMethod} {item : Attribute} {code : Bytes}
      (some : planned.code = some code) (holds : item.HoldsCode pool code planned.codeAttributes)
      (realises : member.Realises pool planned.member) :
      RealisesMethod pool { member with attributes := item :: member.attributes } planned

section Pools

variable {pool later : Pool}

/-- Attributes with declared names are valid. -/
theorem Attribute.valid_of_realise {items : List Attribute} {planned : List (String × Bytes)}
    (realise : List.Forall₂ (Attribute.Realises pool) items planned) : ∀ item ∈ items, item.Valid pool := by
  intro item member
  obtain ⟨wanted, -, realises⟩ := exists_of_forall₂ realise member
  exact Pool.has_of_utf8 realises.1

theorem Member.Realises.valid {member : Member} {planned : PlannedMember} (realises : member.Realises pool planned) :
    member.Valid pool where
  name := Pool.has_of_utf8 realises.name
  descriptor := Pool.has_of_utf8 realises.descriptor
  attributes := Attribute.valid_of_realise realises.attributes

theorem Member.RealisesMethod.valid {member : Member} {planned : PlannedMethod}
    (realises : member.RealisesMethod pool planned) : member.Valid pool := by
  cases realises with
  | bare none realises => exact realises.valid
  | coded some holds realises =>
    have valid := realises.valid
    exact { valid with attributes := List.forall_mem_cons.mpr ⟨Pool.has_of_utf8 holds.name, valid.attributes⟩ }

theorem Attribute.HoldsCode.keep (continues : pool.Continues later) {item : Attribute} {code : Bytes}
    {planned : List (String × Bytes)} (holds : item.HoldsCode pool code planned) :
    item.HoldsCode later code planned where
  name := continues.keeps.utf8 holds.name
  contents := by
    obtain ⟨attributes, decoded, realise⟩ := holds.contents
    have again := CodeAttribute.read_keep continues.keeps (decode_eq_ok.mp decoded)
    exact ⟨attributes, decode_eq_ok.mpr again, Attribute.realises_keep continues realise⟩

theorem Member.RealisesMethod.keep (continues : pool.Continues later) {member : Member} {planned : PlannedMethod}
    (realises : member.RealisesMethod pool planned) : member.RealisesMethod later planned := by
  cases realises with
  | bare none realises => exact .bare none (realises.keep continues)
  | coded some holds realises => exact .coded some (holds.keep continues) (realises.keep continues)

end Pools

/-! ### Classes -/

/-- The attribute of the bootstrap methods, if there are any. -/
def Plan.bootstrapAttributes (plan : Plan) : Except Fault (List (String × Bytes)) :=
  if plan.bootstraps.isEmpty then return []
  else do
    let data ← Bytes.table Draft.bootstrapBytes plan.bootstraps
    return [("BootstrapMethods", data)]

/-- **A class realises a plan**: it has the declared names and flags, and its members and attributes are the declared
ones in order. -/
structure ClassFile.Realises (file : ClassFile) (plan : Plan) : Prop where
  major : file.major = Draft.major
  header : file.header = .ok
    { name := plan.name, superName := plan.superName, interfaces := plan.interfaces, flags := plan.flags }
  fields : List.Forall₂ (Member.Realises file.pool) file.fields plan.fields
  methods : List.Forall₂ (Member.RealisesMethod file.pool) file.methods plan.methods
  attributes : ∃ last, plan.bootstrapAttributes = .ok last ∧
    List.Forall₂ (Attribute.Realises file.pool) file.attributes (plan.attributes ++ last)

namespace Draft

variable {handles : UInt8 → Index → Prop} {draft : Draft} {plan : Plan}

/-! ### Finishing -/

/-- The contents of a `Code` attribute are those of code without handlers. -/
theorem toBytes_code (code : Bytes) (attributes : List Attribute) :
    CodeAttribute.toBytes { maxStack := codeLimit, maxLocals := codeLimit, code, handlers := [], attributes } =
      codeBytes code attributes := by
  have none : Bytes.table (fun handler : Handler => return handler.toBytes) [] = .ok (Bytes.bytes16 0) := rfl
  unfold CodeAttribute.toBytes codeBytes
  rw [none]
  rfl

/-- Code is decoded from the contents of its attribute. -/
theorem decode_codeBytes {pool : Pool} {item : Attribute} {code : Bytes} {attributes : List Attribute}
    (wrote : codeBytes code attributes = .ok item.data) (valid : ∀ nested ∈ attributes, nested.Valid pool) :
    Attribute.decode "Code" (CodeAttribute.read pool) item =
      .ok { maxStack := codeLimit, maxLocals := codeLimit, code, handlers := [], attributes } := by
  rw [← toBytes_code] at wrote
  rw [Attribute.decode_eq_ok]
  exact (CodeAttribute.read_inverts pool _ _ _).mpr ⟨⟨nofun, valid⟩, item.data, wrote, (List.append_nil _).symm⟩

/-- An outcome that is looked at leaves the draft as it is. -/
theorem leaves_check {α : Type} (assembled : draft.pool.Assembled handles) (outcome : Except Fault α) :
    Leaves (draft.Asked handles) (fun value _ => outcome = .ok value) (check outcome draft) := by
  cases outcome with
  | error cause => exact .refl assembled
  | ok value => exact ⟨.refl assembled, rfl⟩

/-- **A method gets its code.** -/
theorem leaves_closeMethod (assembled : draft.pool.Assembled handles) {method : DraftMethod} {planned : PlannedMethod}
    (realises : method.Realises draft.pool planned) :
    Leaves (draft.Asked handles) (fun member after => member.RealisesMethod after.pool planned)
      (closeMethod method draft) := by
  unfold closeMethod
  cases coded : method.code with
  | none =>
    have none : planned.code = none := realises.code.symm.trans coded
    exact ⟨.refl assembled, .bare none realises.member⟩
  | some code =>
    have some : planned.code = some code := realises.code.symm.trans coded
    apply Leaves.bind (leaves_check assembled (codeBytes code method.codeAttributes))
    intro data middle asked wrote
    apply Leaves.bind (leaves_newAttribute asked.builds.assembled "Code" data)
    intro item after later found
    have builds := asked.builds.trans later.builds
    have realises := realises.keep builds.continues
    have holds : item.HoldsCode after.pool code planned.codeAttributes := by
      have same : codeBytes code method.codeAttributes = .ok item.data := by rw [wrote, found.2]
      have valid := Attribute.valid_of_realise realises.codeAttributes
      exact ⟨found.1, method.codeAttributes, decode_codeBytes same valid, realises.codeAttributes⟩
    exact ⟨.refl builds.assembled, .coded some holds realises.member⟩

/-- **All methods get their code.** -/
theorem leaves_closeMethods (assembled : draft.pool.Assembled handles) {methods : List DraftMethod}
    {planned : List PlannedMethod} (realise : List.Forall₂ (DraftMethod.Realises draft.pool) methods planned) :
    Leaves (draft.Asked handles) (fun members after => List.Forall₂ (Member.RealisesMethod after.pool) members planned)
      (methods.mapM closeMethod draft) := by
  induction methods generalizing planned draft with
  | nil =>
    obtain rfl := List.forall₂_nil_left_iff.mp realise
    rw [List.mapM_nil]
    exact ⟨.refl assembled, .nil⟩
  | cons method rest ih =>
    obtain ⟨one, others, head, tail, rfl⟩ := List.forall₂_cons_left_iff.mp realise
    rw [List.mapM_cons]
    apply Leaves.bind (leaves_closeMethod assembled head)
    intro member middle asked closed
    -- the other methods are as they were declared still, although the pool has grown
    have tailKept : List.Forall₂ (DraftMethod.Realises middle.pool) rest others :=
      tail.imp fun _ _ => DraftMethod.Realises.keep asked.builds.continues
    apply Leaves.bind (ih asked.builds.assembled tailKept)
    intro members after later closedRest
    exact ⟨.refl later.builds.assembled, .cons (closed.keep later.builds.continues) closedRest⟩

/-- The bootstrap methods become the last attribute. -/
theorem Follows.closeBootstraps {after : Draft} (follows : draft.Follows handles plan)
    (closed : Draft.closeBootstraps draft = .ok () after) :
    ∃ last, plan.bootstrapAttributes = .ok last ∧
      after.Follows handles { plan with attributes := plan.attributes ++ last } := by
  have opened : Draft.closeBootstraps draft = (if draft.bootstraps.isEmpty then pure () else do
      let data ← check (Bytes.table bootstrapBytes draft.bootstraps)
      addClassAttribute "BootstrapMethods" data : DraftEdit Unit) draft := rfl
  rw [opened, follows.bootstraps] at closed
  unfold Plan.bootstrapAttributes
  by_cases none : plan.bootstraps.isEmpty = true
  · rw [if_pos none] at closed ⊢
    cases closed
    refine ⟨[], rfl, ?_⟩
    rw [List.append_nil]
    exact follows
  · rw [if_neg none] at closed ⊢
    obtain ⟨data, middle, checked, closed⟩ := edit_bind_eq_ok.mp closed
    have leaves := leaves_check follows.assembled (Bytes.table bootstrapBytes plan.bootstraps)
    rw [checked] at leaves
    have advances : Advances handles plan _ (addClassAttribute "BootstrapMethods" data middle) :=
      (follows.asked leaves.1).step (.addClassAttribute "BootstrapMethods" data) trivial
    rw [closed] at advances
    exact ⟨_, bind_eq_ok.mpr ⟨data, leaves.2, rfl⟩, advances⟩

/-- **A finished class realises the plan of its draft.** -/
theorem Follows.finish {file : ClassFile} (follows : draft.Follows handles plan) (finished : draft.finish = .ok file) :
    file.Realises plan ∧ file.pool.Assembled handles := by
  unfold Draft.finish at finished
  split at finished
  next built final done =>
    cases finished
    obtain ⟨_, first, closed, done⟩ := edit_bind_eq_ok.mp done
    obtain ⟨last, listed, follows⟩ := follows.closeBootstraps closed
    obtain ⟨_, _, got, done⟩ := edit_bind_eq_ok.mp done
    cases got
    obtain ⟨members, second, mapped, done⟩ := edit_bind_eq_ok.mp done
    have leaves := leaves_closeMethods follows.assembled follows.methods
    rw [mapped] at leaves
    obtain ⟨asked, methods⟩ := leaves
    have follows := follows.asked asked
    cases done
    refine ⟨⟨rfl, ?_, follows.fields, methods, last, listed, follows.attributes⟩, follows.assembled⟩
    refine ClassFile.header_eq_ok.mpr
      ⟨follows.thisClass, ?_, mapM_eq_ok.mpr follows.interfaces, follows.flags⟩
    exact ClassFile.superName_eq_ok.mpr follows.superClass
  next => cases finished

end Draft

/-! ### Format checking -/

/-- The instructions of a declared method pass their check, and none of its own attributes has the name of code. -/
structure PlannedMethod.Allowed (pool : Pool) (method : PlannedMethod) : Prop where
  code : ∀ code ∈ method.code, Code.check pool code = .ok ()
  attributes : ∀ item ∈ method.member.attributes, item.1 ≠ "Code"

/-- Finished methods pass the check of their code. -/
theorem Member.RealisesMethod.codeAccepted {pool : Pool} {member : Member} {planned : PlannedMethod}
    (realises : member.RealisesMethod pool planned) (allowed : planned.Allowed pool) :
    ClassFile.CodeAccepted pool member := by
  cases realises with
  | bare none realises =>
    refine ⟨.none, Attribute.find?_eq_none fun item inside => ?_, nofun⟩
    obtain ⟨wanted, declared, has⟩ := exists_of_forall₂ realises.attributes inside
    exact ⟨wanted.1, has.1, allowed.attributes wanted declared⟩
  | @coded member _ item code some holds realises =>
    obtain ⟨attributes, decoded, -⟩ := holds.contents
    refine ⟨_, Attribute.find?_cons_of_name holds.name decoded member.attributes, ?_⟩
    rintro _ ⟨⟩
    exact Code.check_eq_ok.mp (allowed.code code some)

namespace ClassFile

variable {file : ClassFile} {plan : Plan}

theorem Realises.wellFormed (realises : file.Realises plan)
    (assembled : file.pool.Assembled fun kind target => file.pool.checkHandle kind target = .ok ()) :
    file.WellFormed := by
  have named := exists_header_iff.mp ⟨_, realises.header⟩
  rw [headerIndices, List.forall_mem_cons, List.forall_mem_append] at named
  obtain ⟨⟨_, this⟩, supers, interfaces⟩ := named
  constructor
  case version =>
    rw [realises.major]
    decide
  case laid => exact assembled.laid
  case checked => exact assembled.check
  case thisClass => exact Pool.has_of_className this
  case superClass =>
    intro index member
    obtain ⟨_, found⟩ := supers index (Option.mem_toList.mpr member)
    exact Pool.has_of_className found
  case interfaces =>
    intro index member
    obtain ⟨_, found⟩ := interfaces index member
    exact Pool.has_of_className found
  case fields =>
    intro field member
    obtain ⟨_, -, declared⟩ := exists_of_forall₂ realises.fields member
    exact declared.valid
  case methods =>
    intro method member
    obtain ⟨_, -, declared⟩ := exists_of_forall₂ realises.methods member
    exact declared.valid
  case attributes =>
    obtain ⟨last, -, declared⟩ := realises.attributes
    exact Attribute.valid_of_realise declared

theorem Realises.checkCode (realises : file.Realises plan)
    (allowed : ∀ method ∈ plan.methods, method.Allowed file.pool) : file.checkCode = .ok () := by
  refine checkCode_eq_ok.mpr fun method member => ?_
  obtain ⟨planned, inside, declared⟩ := exists_of_forall₂ realises.methods member
  exact declared.codeAccepted (allowed planned inside)

end ClassFile

namespace DraftStep

variable {pool : Pool} {step : DraftStep} {plan : Plan}

/-- **What format checking asks of a step**: the kind of a method handle allows its target, the operands of code are
accepted, and no attribute of a method has the name of code. -/
def Allowed (pool : Pool) : DraftStep → Prop
  | constant (.methodHandle kind target) => pool.checkHandle kind target = .ok ()
  | addMethod _ _ _ code => ∀ body ∈ code, Code.check pool body = .ok ()
  | addMethodAttribute _ name _ => name ≠ "Code"
  | _ => True

theorem Allowed.trusted (allowed : step.Allowed pool) :
    step.Trusted fun kind target => pool.checkHandle kind target = .ok () := by
  cases step with
  | constant request =>
    cases request with
    | methodHandle kind target => exact allowed
    | _ => trivial
  | _ => trivial

/-- What an allowed step declares is allowed. -/
theorem Allowed.declare (allowed : step.Allowed pool) (methods : ∀ method ∈ plan.methods, method.Allowed pool) :
    ∀ method ∈ (step.declare plan).methods, method.Allowed pool := by
  cases step with
  | addMethod flags name descriptor code =>
    refine List.forall_mem_append.mpr ⟨methods, List.forall_mem_singleton.mpr ?_⟩
    exact ⟨allowed, nofun⟩
  | addMethodAttribute position name data =>
    refine forall_mem_modify methods (fun method before => ?_) position
    have added : ∀ item ∈ [(name, data)], item.1 ≠ "Code" := List.forall_mem_singleton.mpr allowed
    exact { before with attributes := List.forall_mem_append.mpr ⟨before.attributes, added⟩ }
  | addCodeAttribute position name data =>
    refine forall_mem_modify methods (fun method before => ?_) position
    exact { before with }
  | _ => exact methods

/-- What allowed steps declare is allowed. -/
theorem allowed_foldl {steps : List DraftStep} (allowed : ∀ step ∈ steps, step.Allowed pool) {progress : Draft × Plan}
    (methods : ∀ method ∈ progress.2.methods, method.Allowed pool) :
    ∀ method ∈ (steps.foldl advance progress).2.methods, method.Allowed pool := by
  induction steps generalizing progress with
  | nil => exact methods
  | cons step rest ih =>
    obtain ⟨first, others⟩ := List.forall_mem_cons.mp allowed
    refine ih others ?_
    unfold advance
    cases step.edit progress.1 with
    | error cause draft => exact methods
    | ok value draft => exact first.declare methods

end DraftStep

namespace Draft

/-- **A class that is built is read again from its bytes**, and is what it was declared to be, if format checking
accepts the method handles and the code that went in. -/
theorem parse_of_toBytes {name : String} {superName : Option String} {steps : List DraftStep} {draft : Draft}
    {plan : Plan} {file : ClassFile} {bytes : Bytes} (built : build name superName steps = .ok (draft, plan))
    (finished : draft.finish = .ok file) (allowed : ∀ step ∈ steps, step.Allowed file.pool)
    (wrote : draft.toBytes = .ok bytes) : ClassFile.parse bytes = .ok file ∧ file.Realises plan := by
  -- while the class is built, method handles are trusted for what the finished pool will say of them
  have follows := follows_of_build built fun step member => (allowed step member).trusted
  obtain ⟨realises, assembled⟩ := follows.finish finished
  have methods : ∀ method ∈ plan.methods, method.Allowed file.pool := by
    obtain ⟨first, -, done⟩ := bind_eq_ok.mp built
    have kept : ∀ method ∈ (steps.foldl DraftStep.advance (first, { name, superName })).2.methods,
        method.Allowed file.pool := DraftStep.allowed_foldl allowed nofun
    rw [pure_eq_ok.mp done] at kept
    exact kept
  have written : file.toBytes = .ok bytes := by
    unfold Draft.toBytes at wrote
    rw [finished] at wrote
    exact wrote
  exact ⟨ClassFile.parse_eq_ok_iff.mpr ⟨realises.wellFormed assembled, realises.checkCode methods, written⟩, realises⟩

/-- A class with a bootstrap method, and a method that calls itself. -/
def sampleSteps : List DraftStep :=
  [.constant (.member .method "A" "m" "()V"), .constant (.methodHandle 5 6), .addBootstrap 7 [2],
    .addMethod 0x0001 "m" "()V" (some [0xB6, 0x00, 0x06, 0xB1]), .addCodeAttribute 0 "X" [0x2A]]

/-- The draft after the sample steps. -/
def sampleDraft : Draft where
  pool.slots := #[.utf8 [0x41], .classRef 1, .utf8 [0x6D], .utf8 [0x28, 0x29, 0x56], .nameAndType 3 4, .method 2 5,
    .methodHandle 5 6, .utf8 [0x58]]
  thisClass := 2
  methods := [{ member := { flags := 0x0001, name := 3, descriptor := 4, attributes := [] },
                code := some [0xB6, 0x00, 0x06, 0xB1], codeAttributes := [{ name := 8, data := [0x2A] }] }]
  bootstraps := [{ handle := 7, arguments := [2] }]

/-- What the sample steps declare. -/
def samplePlan : Plan where
  name := "A"
  superName := none
  methods := [{ member := { flags := 0x0001, name := "m", descriptor := "()V" },
                code := some [0xB6, 0x00, 0x06, 0xB1], codeAttributes := [("X", [0x2A])] }]
  bootstraps := [{ handle := 7, arguments := [2] }]

/-- The class that the sample draft becomes. -/
def sampleFinished : ClassFile where
  minor := 0
  major := 61
  pool.slots := #[.utf8 [0x41], .classRef 1, .utf8 [0x6D], .utf8 [0x28, 0x29, 0x56], .nameAndType 3 4, .method 2 5,
    .methodHandle 5 6, .utf8 [0x58],
    .utf8 [0x42, 0x6F, 0x6F, 0x74, 0x73, 0x74, 0x72, 0x61, 0x70, 0x4D, 0x65, 0x74, 0x68, 0x6F, 0x64, 0x73],
    .utf8 [0x43, 0x6F, 0x64, 0x65]]
  flags := 0x0021
  thisClass := 2
  superClass := none
  interfaces := []
  fields := []
  methods := [{ flags := 0x0001, name := 3, descriptor := 4,
                attributes := [{ name := 10,
                                 data := [0x00, 0x08, 0x00, 0x08, 0x00, 0x00, 0x00, 0x04, 0xB6, 0x00, 0x06, 0xB1,
                                   0x00, 0x00, 0x00, 0x01, 0x00, 0x08, 0x00, 0x00, 0x00, 0x01, 0x2A] }] }]
  attributes := [{ name := 9, data := [0x00, 0x01, 0x00, 0x07, 0x00, 0x01, 0x00, 0x02] }]

/-- The bytes of that class. -/
def sampleBytes : Bytes :=
  [0xCA, 0xFE, 0xBA, 0xBE, 0x00, 0x00, 0x00, 0x3D, 0x00, 0x0B,
    0x01, 0x00, 0x01, 0x41,
    0x07, 0x00, 0x01,
    0x01, 0x00, 0x01, 0x6D,
    0x01, 0x00, 0x03, 0x28, 0x29, 0x56,
    0x0C, 0x00, 0x03, 0x00, 0x04,
    0x0A, 0x00, 0x02, 0x00, 0x05,
    0x0F, 0x05, 0x00, 0x06,
    0x01, 0x00, 0x01, 0x58,
    0x01, 0x00, 0x10, 0x42, 0x6F, 0x6F, 0x74, 0x73, 0x74, 0x72, 0x61, 0x70, 0x4D, 0x65, 0x74, 0x68, 0x6F, 0x64,
    0x73,
    0x01, 0x00, 0x04, 0x43, 0x6F, 0x64, 0x65,
    0x00, 0x21, 0x00, 0x02, 0x00, 0x00, 0x00, 0x00, 0x00, 0x00,
    0x00, 0x01, 0x00, 0x01, 0x00, 0x03, 0x00, 0x04,
    0x00, 0x01, 0x00, 0x0A, 0x00, 0x00, 0x00, 0x17, 0x00, 0x08, 0x00, 0x08,
    0x00, 0x00, 0x00, 0x04, 0xB6, 0x00, 0x06, 0xB1, 0x00, 0x00,
    0x00, 0x01, 0x00, 0x08, 0x00, 0x00, 0x00, 0x01, 0x2A,
    0x00, 0x01, 0x00, 0x09, 0x00, 0x00, 0x00, 0x08, 0x00, 0x01, 0x00, 0x07, 0x00, 0x01, 0x00, 0x02]

theorem parse_of_toBytes_sample :
    build "A" none sampleSteps = .ok (sampleDraft, samplePlan) ∧ sampleDraft.finish = .ok sampleFinished ∧
      sampleDraft.toBytes = .ok sampleBytes ∧ ClassFile.parse sampleBytes = .ok sampleFinished ∧
      sampleFinished.Realises samplePlan := by
  have built : build "A" none sampleSteps = .ok (sampleDraft, samplePlan) := by decide +kernel
  have finished : sampleDraft.finish = .ok sampleFinished := by decide +kernel
  have wrote : sampleDraft.toBytes = .ok sampleBytes := by decide +kernel
  have handle : sampleFinished.pool.checkHandle 5 6 = .ok () := by decide +kernel
  have code : Code.check sampleFinished.pool [0xB6, 0x00, 0x06, 0xB1] = .ok () := by decide +kernel
  have allowed : ∀ step ∈ sampleSteps, step.Allowed sampleFinished.pool := by
    unfold sampleSteps
    simp only [List.forall_mem_cons, DraftStep.Allowed, handle, Option.mem_some_iff, forall_eq', code, true_and]
    exact List.forall_mem_nil _
  exact ⟨built, finished, wrote, parse_of_toBytes built finished allowed wrote⟩

end Draft

end JarRename
