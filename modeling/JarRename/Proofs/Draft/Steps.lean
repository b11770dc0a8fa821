import JarRename.Draft
import JarRename.Proofs.Pool.Assembled

/-!
**Building classes step by step.**

A step of a construction asks the pool for constants and then enters its part into the draft. What the steps that
succeed declare is the plan of the class; a step that fails leaves constants in the pool at most. So a draft follows
its plan after any steps, since the constants that it points at stay.

* `DraftStep`, `DraftStep.advance`, `Draft.build`: the steps, and a class that is built from them;
* `Plan`, `DraftStep.declare`: what was declared;
* `Attribute.Realises`, `Member.Realises`, `DraftMethod.Realises`: parts that are as they were declared;
* `Draft.Follows`: a draft that is as its plan says;
* `Draft.Asked`: a draft before and after requests to its pool;
* `Draft.Follows.step`, `Draft.Follows.run`: a step, and any number of steps;
* `Draft.follows_of_build`: a draft that is built follows its plan.
-/

namespace JarRename

/-! ### Steps and plans -/

/-- A step of the construction of a class. -/
inductive DraftStep where
  | constant (request : ConstantRequest)
  | setFlags (flags : Flags)
  | addInterface (name : String)
  | addBootstrap (handle : Index) (arguments : List Index)
  | addField (flags : Flags) (name descriptor : String)
  | addMethod (flags : Flags) (name descriptor : String) (code : Option Bytes)
  | addClassAttribute (name : String) (data : Bytes)
  | addFieldAttribute (position : Nat) (name : String) (data : Bytes)
  | addMethodAttribute (position : Nat) (name : String) (data : Bytes)
  | addCodeAttribute (position : Nat) (name : String) (data : Bytes)
  deriving DecidableEq

/-- A declared field, or a declared method without its code. Attributes are names and contents. -/
structure PlannedMember where
  flags : Flags
  name : String
  descriptor : String
  attributes : List (String × Bytes) := []
  deriving DecidableEq

/-- A declared method. -/
structure PlannedMethod where
  member : PlannedMember
  code : Option Bytes
  codeAttributes : List (String × Bytes) := []
  deriving DecidableEq

/-- What a class is declared to be. -/
structure Plan where
  name : String
  superName : Option String
  flags : Flags := 0x0021
  interfaces : List String := []
  fields : List PlannedMember := []
  methods : List PlannedMethod := []
  attributes : List (String × Bytes) := []
  bootstraps : List BootstrapMethod := []
  deriving DecidableEq

/-- The member with one attribute more. -/
def PlannedMember.withAttribute (item : String × Bytes) (member : PlannedMember) : PlannedMember :=
  { member with attributes := member.attributes ++ [item] }

namespace DraftStep

/-- What a step does to a draft; the positions of new parts are left out. -/
def edit : DraftStep → DraftEdit Unit
  | constant request => discard (Draft.request request.edit)
  | setFlags flags => Draft.setFlags flags
  | addInterface name => Draft.addInterface name
  | addBootstrap handle arguments => discard (Draft.addBootstrap handle arguments)
  | addField flags name descriptor => discard (Draft.addField flags name descriptor)
  | addMethod flags name descriptor code => discard (Draft.addMethod flags name descriptor code)
  | addClassAttribute name data => Draft.addClassAttribute name data
  | addFieldAttribute position name data => Draft.addFieldAttribute position name data
  | addMethodAttribute position name data => Draft.addMethodAttribute position name data
  | addCodeAttribute position name data => Draft.addCodeAttribute position name data

/-- What a step declares. -/
def declare (plan : Plan) : DraftStep → Plan
  | constant _ => plan
  | setFlags flags => { plan with flags }
  | addInterface name => { plan with interfaces := plan.interfaces ++ [name] }
  | addBootstrap handle arguments => { plan with bootstraps := plan.bootstraps ++ [{ handle, arguments }] }
  | addField flags name descriptor => { plan with fields := plan.fields ++ [{ flags, name, descriptor }] }
  | addMethod flags name descriptor code =>
    { plan with methods := plan.methods ++ [{ member := { flags, name, descriptor }, code }] }
  | addClassAttribute name data => { plan with attributes := plan.attributes ++ [(name, data)] }
  | addFieldAttribute position name data =>
    { plan with fields := plan.fields.modify position (PlannedMember.withAttribute (name, data)) }
  | addMethodAttribute position name data =>
    { plan with methods := plan.methods.modify position fun method =>
        { method with member := method.member.withAttribute (name, data) } }
  | addCodeAttribute position name data =>
    { plan with methods := plan.methods.modify position fun method =>
        { method with codeAttributes := method.codeAttributes ++ [(name, data)] } }

/-- A method handle that a step asks for is one of those that are trusted. -/
def Trusted (handles : UInt8 → Index → Prop) : DraftStep → Prop
  | constant request => request.Trusted handles
  | _ => True

/-- A draft and its plan after a step. A step that fails declares nothing. -/
def advance (progress : Draft × Plan) (step : DraftStep) : Draft × Plan :=
  match step.edit progress.1 with
  | .ok _ draft => (draft, step.declare progress.2)
  | .error _ draft => (draft, progress.2)

end DraftStep

/-- The draft of a class after steps, with its plan. -/
def Draft.build (name : String) (superName : Option String) (steps : List DraftStep) :
    Except Fault (Draft × Plan) := do
  let draft ← Draft.start name superName
  return steps.foldl DraftStep.advance (draft, { name, superName })

/-! ### Parts that are as they were declared -/

variable {pool later : Pool}

/-- The attribute has the declared name and contents. -/
def Attribute.Realises (pool : Pool) (item : Attribute) (planned : String × Bytes) : Prop :=
  pool.utf8 item.name = .ok planned.1 ∧ item.data = planned.2

/-- The member has the declared flags, name, descriptor and attributes. -/
structure Member.Realises (pool : Pool) (member : Member) (planned : PlannedMember) : Prop where
  flags : member.flags = planned.flags
  name : pool.utf8 member.name = .ok planned.name
  descriptor : pool.utf8 member.descriptor = .ok planned.descriptor
  attributes : List.Forall₂ (Attribute.Realises pool) member.attributes planned.attributes

/-- The method under construction has the declared parts, instructions and attributes of the code. -/
structure DraftMethod.Realises (pool : Pool) (method : DraftMethod) (planned : PlannedMethod) : Prop where
  member : method.member.Realises pool planned.member
  code : method.code = planned.code
  codeAttributes : List.Forall₂ (Attribute.Realises pool) method.codeAttributes planned.codeAttributes

theorem Attribute.Realises.keep (continues : pool.Continues later) {item : Attribute} {planned : String × Bytes}
    (realises : item.Realises pool planned) : item.Realises later planned :=
  ⟨continues.keeps.utf8 realises.1, realises.2⟩

theorem Attribute.realises_keep (continues : pool.Continues later) {items : List Attribute}
    {planned : List (String × Bytes)} (realise : List.Forall₂ (Attribute.Realises pool) items planned) :
    List.Forall₂ (Attribute.Realises later) items planned :=
  realise.imp fun _ _ => Realises.keep continues

theorem Member.Realises.keep (continues : pool.Continues later) {member : Member} {planned : PlannedMember}
    (realises : member.Realises pool planned) : member.Realises later planned where
  flags := realises.flags
  name := continues.keeps.utf8 realises.name
  descriptor := continues.keeps.utf8 realises.descriptor
  attributes := Attribute.realises_keep continues realises.attributes

theorem DraftMethod.Realises.keep (continues : pool.Continues later) {method : DraftMethod}
    {planned : PlannedMethod} (realises : method.Realises pool planned) : method.Realises later planned where
  member := realises.member.keep continues
  code := realises.code
  codeAttributes := Attribute.realises_keep continues realises.codeAttributes

/-- One attribute more, in the member and in the plan. -/
theorem Member.Realises.withAttribute {member : Member} {planned : PlannedMember}
    (realises : member.Realises pool planned) {item : Attribute} {wanted : String × Bytes}
    (has : item.Realises pool wanted) :
    (Draft.withAttribute item member).Realises pool (planned.withAttribute wanted) where
  flags := realises.flags
  name := realises.name
  descriptor := realises.descriptor
  attributes := List.rel_append realises.attributes (.cons has .nil)

namespace Draft

variable {handles : UInt8 → Index → Prop} {draft : Draft} {plan next : Plan} {α β : Type}

/-! ### Drafts that follow a plan -/

/-- **A draft follows a plan**: its pool is put together, and all parts are as they were declared. -/
structure Follows (handles : UInt8 → Index → Prop) (draft : Draft) (plan : Plan) : Prop where
  assembled : draft.pool.Assembled handles
  thisClass : draft.pool.className draft.thisClass = .ok plan.name
  superClass : Option.Rel (fun index name => draft.pool.className index = .ok name) draft.superClass plan.superName
  flags : draft.flags = plan.flags
  interfaces : List.Forall₂ (fun index name => draft.pool.className index = .ok name) draft.interfaces plan.interfaces
  fields : List.Forall₂ (Member.Realises draft.pool) draft.fields plan.fields
  methods : List.Forall₂ (DraftMethod.Realises draft.pool) draft.methods plan.methods
  attributes : List.Forall₂ (Attribute.Realises draft.pool) draft.attributes plan.attributes
  bootstraps : draft.bootstraps = plan.bootstraps

/-- A draft before and after requests to its pool. -/
inductive Asked (handles : UInt8 → Index → Prop) (draft : Draft) : Draft → Prop
  | intro (pool : Pool) (builds : draft.pool.Builds handles pool) : Asked handles draft { draft with pool }

theorem Asked.refl (assembled : draft.pool.Assembled handles) : Asked handles draft draft :=
  .intro draft.pool (.refl assembled)

theorem Asked.builds {after : Draft} (asked : draft.Asked handles after) : draft.pool.Builds handles after.pool := by
  cases asked with
  | intro pool builds => exact builds

theorem Asked.trans {before middle after : Draft} (first : Asked handles before middle)
    (second : Asked handles middle after) : Asked handles before after := by
  cases first with
  | intro pool builds =>
    cases second with
    | intro later buildsLater => exact .intro later (builds.trans buildsLater)

instance : Trans (Asked handles) (Asked handles) (Asked handles) := ⟨Asked.trans⟩

/-- Requests to the pool leave all parts as they are. -/
theorem Follows.asked {after : Draft} (follows : draft.Follows handles plan) (asked : draft.Asked handles after) :
    after.Follows handles plan := by
  cases asked with
  | intro pool builds =>
    have continues := builds.continues
    exact {
      assembled := builds.assembled
      thisClass := continues.className follows.thisClass
      superClass := optionRel_imp (fun _ _ => continues.className) follows.superClass
      flags := follows.flags
      interfaces := follows.interfaces.imp fun _ _ => continues.className
      fields := follows.fields.imp fun _ _ => Member.Realises.keep continues
      methods := follows.methods.imp fun _ _ => DraftMethod.Realises.keep continues
      attributes := Attribute.realises_keep continues follows.attributes
      bootstraps := follows.bootstraps }

/-- A request to the pool of a draft changes nothing else. -/
theorem leaves_request_of {edit : PoolEdit α} {good : Pool → Prop} {done : α → Pool → Prop} {kept : Draft → Prop}
    (leaves : Leaves good done (edit draft.pool)) (keep : ∀ pool, good pool → kept { draft with pool }) :
    Leaves kept (fun value after => done value after.pool) (request edit draft) := by
  unfold request
  dsimp only
  cases found : edit draft.pool with
  | error cause pool =>
    rw [found] at leaves
    exact keep pool leaves
  | ok value pool =>
    rw [found] at leaves
    exact ⟨keep pool leaves.1, leaves.2⟩

/-- **A request to the pool of a draft.** -/
theorem leaves_request {edit : PoolEdit α} {done : α → Pool → Prop}
    (leaves : Leaves (draft.pool.Builds handles) done (edit draft.pool)) :
    Leaves (draft.Asked handles) (fun value after => done value after.pool) (request edit draft) :=
  leaves_request_of leaves fun pool builds => .intro pool builds

theorem leaves_newMember (assembled : draft.pool.Assembled handles) (flags : Flags) (name descriptor : String) :
    Leaves (draft.Asked handles) (fun member after => member.Realises after.pool { flags, name, descriptor })
      (newMember flags name descriptor draft) := by
  apply Leaves.bind (leaves_request (Pool.leaves_internText assembled name))
  intro nameIndex middle asked nameFound
  apply Leaves.bind (leaves_request (Pool.leaves_internText asked.builds.assembled descriptor))
  intro descriptorIndex after asked descriptorFound
  refine ⟨.refl asked.builds.assembled, ?_⟩
  exact { flags := rfl, name := asked.builds.keeps.utf8 nameFound, descriptor := descriptorFound, attributes := .nil }

theorem leaves_newAttribute (assembled : draft.pool.Assembled handles) (name : String) (data : Bytes) :
    Leaves (draft.Asked handles) (fun item after => item.Realises after.pool (name, data))
      (newAttribute name data draft) := by
  apply Leaves.bind (leaves_request (Pool.leaves_internText assembled name))
  intro index after asked found
  exact ⟨.refl asked.builds.assembled, found, rfl⟩

/-! ### Steps -/

/-- What a step leaves behind: a draft that follows the next plan if the step succeeds, and the plan before if it
fails. -/
def Advances (handles : UInt8 → Index → Prop) (plan next : Plan) : EStateM.Result Fault Draft α → Prop
  | .ok _ after => after.Follows handles next
  | .error _ after => after.Follows handles plan

theorem Follows.advances_of_leaves (follows : draft.Follows handles plan) {result : EStateM.Result Fault Draft α}
    {done : α → Draft → Prop} (leaves : Leaves (draft.Asked handles) done result) :
    Advances handles plan plan result := by
  cases result with
  | error cause after => exact follows.asked leaves
  | ok value after => exact follows.asked leaves.1

/-- Requests, and then a change of the draft. -/
theorem Follows.advances (follows : draft.Follows handles plan) {first : DraftEdit α} {change : α → DraftEdit β}
    {done : α → Draft → Prop} (leaves : Leaves (draft.Asked handles) done (first draft))
    (changes : ∀ value after, after.Follows handles plan → done value after →
      Advances handles plan next (change value after)) : Advances handles plan next ((first >>= change) draft) := by
  cases found : first draft with
  | error cause middle =>
    rw [found] at leaves
    rw [edit_bind_of_error found]
    exact follows.asked leaves
  | ok value middle =>
    rw [found] at leaves
    rw [edit_bind_of_ok found]
    exact changes value middle (follows.asked leaves.1) leaves.2

theorem advances_discard {edit : DraftEdit α} (advances : Advances handles plan next (edit draft)) :
    Advances handles plan next (discard edit draft) := by
  cases found : edit draft with
  | error cause after =>
    rw [found] at advances
    rw [edit_discard_of_error found]
    exact advances
  | ok value after =>
    rw [found] at advances
    rw [edit_discard_of_ok found]
    exact advances

/-- **A step** makes a draft follow the plan with what the step declares. -/
theorem Follows.step (follows : draft.Follows handles plan) (step : DraftStep) (trusted : step.Trusted handles) :
    Advances handles plan (step.declare plan) (step.edit draft) := by
  -- every step but two asks the pool first, and then enters what belongs to the pool as it is after that
  have assembled := follows.assembled
  cases step with
  | constant request =>
    have leaves := leaves_request (request.leaves_edit assembled trusted)
    exact advances_discard (follows.advances_of_leaves leaves)
  | setFlags flags => exact { follows with flags := rfl }
  | addInterface name =>
    apply follows.advances (leaves_request (Pool.leaves_internClass assembled name))
    intro index after follows found
    exact { follows with interfaces := List.rel_append follows.interfaces (.cons found .nil) }
  | addBootstrap handle arguments =>
    apply advances_discard
    exact { follows with bootstraps := congrArg (· ++ [{ handle, arguments }]) follows.bootstraps }
  | addField flags name descriptor =>
    apply advances_discard
    apply follows.advances (leaves_newMember assembled flags name descriptor)
    intro member after follows found
    exact { follows with fields := List.rel_append follows.fields (.cons found .nil) }
  | addMethod flags name descriptor code =>
    apply advances_discard
    apply follows.advances (leaves_newMember assembled flags name descriptor)
    intro member after follows found
    exact { follows with methods := List.rel_append follows.methods (.cons ⟨found, rfl, .nil⟩ .nil) }
  | addClassAttribute name data =>
    apply follows.advances (leaves_newAttribute assembled name data)
    intro item after follows found
    exact { follows with attributes := List.rel_append follows.attributes (.cons found .nil) }
  | addFieldAttribute position name data =>
    apply follows.advances (leaves_newAttribute assembled name data)
    intro item after follows found
    exact { follows with fields := forall₂_modify follows.fields (fun _ _ same => same.withAttribute found) position }
  | addMethodAttribute position name data =>
    apply follows.advances (leaves_newAttribute assembled name data)
    intro item after follows found
    refine { follows with methods := forall₂_modify follows.methods (fun method planned same => ?_) position }
    exact { same with member := same.member.withAttribute found }
  | addCodeAttribute position name data =>
    apply follows.advances (leaves_newAttribute assembled name data)
    intro item after follows found
    refine { follows with methods := forall₂_modify follows.methods (fun method planned same => ?_) position }
    exact { same with codeAttributes := List.rel_append same.codeAttributes (.cons found .nil) }

theorem Follows.advance (follows : draft.Follows handles plan) (step : DraftStep) (trusted : step.Trusted handles) :
    (DraftStep.advance (draft, plan) step).1.Follows handles (DraftStep.advance (draft, plan) step).2 := by
  have advances := follows.step step trusted
  unfold DraftStep.advance
  cases found : step.edit draft with
  | error cause after =>
    rw [found] at advances
    exact advances
  | ok value after =>
    rw [found] at advances
    exact advances

/-- **Any number of steps** make a draft follow what the steps that succeed declare. -/
theorem Follows.run (follows : draft.Follows handles plan) {steps : List DraftStep}
    (trusted : ∀ step ∈ steps, step.Trusted handles) :
    (steps.foldl DraftStep.advance (draft, plan)).1.Follows handles
      (steps.foldl DraftStep.advance (draft, plan)).2 := by
  induction steps generalizing draft plan with
  | nil => exact follows
  | cons step rest ih =>
    obtain ⟨first, others⟩ := List.forall_mem_cons.mp trusted
    exact ih (follows.advance step first) others

/-! ### Classes from scratch -/

theorem follows_of_named {name : String} {thisClass : Index} {named : Draft}
    (requested : request (Pool.internClass name) {} = .ok thisClass named) :
    Follows handles { named with thisClass } { name, superName := none } := by
  have empty : Pool.Assembled handles ({} : Draft).pool := Pool.assembled_empty handles
  have leaves := leaves_request (Pool.leaves_internClass empty name)
  rw [requested] at leaves
  obtain ⟨asked, found⟩ := leaves
  cases asked with
  | intro pool builds => exact ⟨builds.assembled, found, .none, rfl, .nil, .nil, .nil, .nil, rfl⟩

/-- A new draft has the names that it is started with. -/
theorem follows_of_start {name : String} {superName : Option String} (started : start name superName = .ok draft) :
    draft.Follows handles { name, superName } := by
  dsimp only [start] at started
  cases superName with
  | none =>
    split at started
    next last done =>
      cases started
      obtain ⟨thisClass, named, requested, done⟩ := edit_bind_eq_ok.mp done
      cases done
      exact follows_of_named requested
    next => cases started
  | some superName =>
    split at started
    next last done =>
      cases started
      obtain ⟨thisClass, named, requested, done⟩ := edit_bind_eq_ok.mp done
      obtain ⟨_, middle, changed, done⟩ := edit_bind_eq_ok.mp done
      obtain rfl := edit_modify_eq_ok.mp changed
      obtain ⟨superClass, supered, superRequested, done⟩ := edit_bind_eq_ok.mp done
      obtain rfl := edit_modify_eq_ok.mp done
      have follows : Follows handles { named with thisClass } { name, superName := none } := follows_of_named requested
      have leaves := leaves_request (Pool.leaves_internClass follows.assembled superName)
      rw [superRequested] at leaves
      exact { follows.asked leaves.1 with superClass := .some leaves.2 }
    next => cases started

/-- **A draft that is built follows its plan.** -/
theorem follows_of_build {name : String} {superName : Option String} {steps : List DraftStep}
    (built : build name superName steps = .ok (draft, plan)) (trusted : ∀ step ∈ steps, step.Trusted handles) :
    draft.Follows handles plan := by
  obtain ⟨first, started, done⟩ := bind_eq_ok.mp built
  have follows : Follows handles first { name, superName } := follows_of_start started
  have ran := follows.run trusted
  rw [pure_eq_ok.mp done] at ran
  exact ran

end Draft

end JarRename
