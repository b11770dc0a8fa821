import JarRename.Proofs.Draft.Finish
import JarRename.Proofs.Pool.Interned

/-!
**Constants of a class under construction.**

Every step puts constants behind the pool at most, also a step that fails on the way. So a request that was answered at
some point of a construction is settled ever after, whatever comes between, and the constants of the draft, and of the
class that it becomes, are interned for all requests that were answered until then.

* `DraftStep.ask`, `Draft.ask`: a construction, and the answers to its requests;
* `Draft.Grows`: edits that put constants behind the pool at most, closed under sequences;
* `Draft.grows_edit`, `Draft.leaves_close`: the steps, and finishing;
* `Draft.Answered`, `Draft.Answered.step`, `Draft.Answered.run`: answers stay settled after a step and after any number
  of steps;
* `Draft.interned_of_ask`: the constants of a construction are interned.
-/

namespace JarRename

/-! ### Constructions and their answers -/

/-- Every request is trusted, where all method handles are. -/
theorem ConstantRequest.trusted_all (request : ConstantRequest) : request.Trusted fun _ _ => True := by
  cases request <;> trivial

namespace DraftStep

/-- The draft after a step, which may have failed. -/
def after (draft : Draft) (step : DraftStep) : Draft :=
  match step.edit draft with
  | .ok _ draft => draft
  | .error _ draft => draft

/-- The request of a step with the index that answers it, if the step is a request and succeeds. -/
def answer? (draft : Draft) : DraftStep → Option (ConstantRequest × Index)
  | constant request =>
    match Draft.request request.edit draft with
    | .ok index _ => some (request, index)
    | .error _ _ => none
  | _ => none

/-- A draft and the answers so far, after a step. -/
def ask (progress : Draft × List (ConstantRequest × Index)) (step : DraftStep) :
    Draft × List (ConstantRequest × Index) :=
  (step.after progress.1, progress.2 ++ (step.answer? progress.1).toList)

/-- The draft after a step is the one that construction goes on with. -/
theorem fst_advance (draft : Draft) (plan : Plan) (step : DraftStep) :
    (advance (draft, plan) step).1 = step.after draft := by
  unfold advance after
  cases step.edit draft <;> rfl

/-- Every step is trusted, where all method handles are. -/
theorem trusted_all (step : DraftStep) : step.Trusted fun _ _ => True := by
  cases step with
  | constant request => exact request.trusted_all
  | _ => trivial

end DraftStep

/-- The draft of a class after steps, with the requests that were answered and their indices. -/
def Draft.ask (name : String) (superName : Option String) (steps : List DraftStep) :
    Except Fault (Draft × List (ConstantRequest × Index)) := do
  let draft ← Draft.start name superName
  return steps.foldl DraftStep.ask (draft, [])

namespace Draft

variable {α β : Type} {before middle after draft : Draft}

/-! ### Edits that put constants behind the pool -/

/-- The slots of the pool stay as they are. -/
def Extends (before after : Draft) : Prop :=
  before.pool.Continues after.pool

theorem Extends.refl (draft : Draft) : Extends draft draft :=
  Pool.Continues.refl draft.pool

theorem Extends.trans (first : Extends before middle) (second : Extends middle after) : Extends before after :=
  Pool.Continues.trans first second

instance : Trans Extends Extends Extends := ⟨Extends.trans⟩

/-- The edit puts constants behind the pool at most, even if it fails. -/
def Grows (edit : DraftEdit α) : Prop :=
  ∀ draft, Leaves (Extends draft) (fun _ _ => True) (edit draft)

theorem Grows.bind {first : DraftEdit α} {next : α → DraftEdit β} (one : Grows first)
    (two : ∀ value, Grows (next value)) : Grows (first >>= next) :=
  fun draft => (one draft).bind fun value middle _ _ => two value middle

/-- An edit of the other parts leaves the pool as it is. -/
theorem grows_enter (value : Draft → α) (change : Draft → Draft)
    (same : ∀ draft, (change draft).pool = draft.pool) : Grows fun draft => .ok (value draft) (change draft) := by
  intro draft
  refine ⟨?_, trivial⟩
  rw [Extends, same]
  exact .refl draft.pool

theorem grows_pure (value : α) : Grows (pure value : DraftEdit α) :=
  grows_enter (fun _ => value) id fun _ => rfl

/-- An outcome that is looked at leaves the draft as it is. -/
theorem grows_check (outcome : Except Fault α) : Grows (check outcome) := by
  intro draft
  cases outcome with
  | error cause => exact Extends.refl draft
  | ok value => exact ⟨.refl draft, trivial⟩

/-- **A request to the pool of a draft** is settled by its answer. -/
theorem leaves_settled {edit : PoolEdit α} (settles : Pool.Settles edit) (draft : Draft) :
    Leaves (Extends draft) (fun value after => Pool.Settled edit value after.pool) (request edit draft) :=
  leaves_request_of (settles draft.pool) fun _ continues => continues

theorem grows_request {edit : PoolEdit α} (settles : Pool.Settles edit) : Grows (request edit) :=
  fun draft => (leaves_settled settles draft).mono fun _ _ _ _ => trivial

theorem Grows.discard {edit : DraftEdit α} (grows : Grows edit) : Grows (discard edit) :=
  fun draft => (grows draft).discard

theorem Grows.mapM {edit : α → DraftEdit β} (grows : ∀ item, Grows (edit item)) (items : List α) :
    Grows (items.mapM edit) := by
  induction items with
  | nil =>
    rw [List.mapM_nil]
    exact grows_pure []
  | cons item rest ih =>
    rw [List.mapM_cons]
    exact (grows item).bind fun value => ih.bind fun values => grows_pure (value :: values)

/-! ### Steps and finishing -/

theorem grows_newMember (flags : Flags) (name descriptor : String) : Grows (newMember flags name descriptor) :=
  (grows_request (Pool.settles_intern _)).bind fun _ =>
    (grows_request (Pool.settles_intern _)).bind fun _ => grows_pure _

theorem grows_newAttribute (name : String) (data : Bytes) : Grows (newAttribute name data) :=
  (grows_request (Pool.settles_intern _)).bind fun _ => grows_pure _

theorem grows_addClassAttribute (name : String) (data : Bytes) : Grows (addClassAttribute name data) :=
  (grows_newAttribute name data).bind fun _ => grows_enter (fun _ => ()) _ fun _ => rfl

/-- **A step puts constants behind the pool at most**, even if it fails. -/
theorem grows_edit (step : DraftStep) : Grows step.edit := by
  cases step with
  | constant request => exact (grows_request request.settles_edit).discard
  | setFlags flags => exact grows_enter (fun _ => ()) _ fun _ => rfl
  | addInterface name =>
    exact (grows_request (Pool.settles_internClass name)).bind fun _ => grows_enter (fun _ => ()) _ fun _ => rfl
  | addBootstrap handle arguments =>
    apply Grows.discard
    exact grows_enter _ _ fun _ => rfl
  | addField flags name descriptor =>
    apply Grows.discard
    exact (grows_newMember flags name descriptor).bind fun _ => grows_enter _ _ fun _ => rfl
  | addMethod flags name descriptor code =>
    apply Grows.discard
    exact (grows_newMember flags name descriptor).bind fun _ => grows_enter _ _ fun _ => rfl
  | addClassAttribute name data => exact grows_addClassAttribute name data
  | addFieldAttribute position name data =>
    exact (grows_newAttribute name data).bind fun _ => grows_enter (fun _ => ()) _ fun _ => rfl
  | addMethodAttribute position name data =>
    exact (grows_newAttribute name data).bind fun _ => grows_enter (fun _ => ()) _ fun _ => rfl
  | addCodeAttribute position name data =>
    exact (grows_newAttribute name data).bind fun _ => grows_enter (fun _ => ()) _ fun _ => rfl

theorem grows_closeBootstraps : Grows closeBootstraps := by
  refine (grows_enter (fun draft => draft) id fun _ => rfl).bind fun draft => ?_
  show Grows (if draft.bootstraps.isEmpty then pure () else do
    let data ← check (Bytes.table bootstrapBytes draft.bootstraps)
    addClassAttribute "BootstrapMethods" data)
  split
  · exact grows_pure ()
  · exact (grows_check _).bind fun data => grows_addClassAttribute "BootstrapMethods" data

theorem grows_closeMethod (method : DraftMethod) : Grows (closeMethod method) := by
  unfold closeMethod
  split
  · exact grows_pure _
  · exact (grows_check _).bind fun data => (grows_newAttribute "Code" data).bind fun _ => grows_pure _

/-- A finished class has the pool of its draft with constants behind it at most. -/
theorem leaves_close (draft : Draft) :
    Leaves (Extends draft) (fun file after => file.pool = after.pool) (close draft) := by
  apply Leaves.bind (grows_closeBootstraps draft)
  intro _ middle _ _
  have get : Grows fun draft => .ok draft draft := grows_enter (fun draft => draft) id fun _ => rfl
  apply Leaves.bind (get middle)
  intro found middle _ _
  apply Leaves.bind (Grows.mapM grows_closeMethod found.methods middle)
  intro members middle _ _
  exact ⟨.refl middle, rfl⟩

theorem continues_finish {file : ClassFile} (finished : draft.finish = .ok file) : draft.pool.Continues file.pool := by
  have leaves := leaves_close draft
  unfold finish at finished
  split at finished
  next built after done =>
    cases finished
    rw [done] at leaves
    rw [leaves.2]
    exact leaves.1
  next => cases finished

/-! ### Constructions -/

theorem extends_after (draft : Draft) (step : DraftStep) : Extends draft (step.after draft) := by
  have leaves := grows_edit step draft
  unfold DraftStep.after
  cases found : step.edit draft with
  | error cause after =>
    rw [found] at leaves
    exact leaves
  | ok value after =>
    rw [found] at leaves
    exact leaves.1

/-- The answer of a step is settled. -/
theorem settled_answer {step : DraftStep} {answer : ConstantRequest × Index}
    (answered : step.answer? draft = some answer) : Pool.Settled answer.1.edit answer.2 (step.after draft).pool := by
  cases step with
  | constant request =>
    have leaves := leaves_settled request.settles_edit draft
    cases found : Draft.request request.edit draft with
    | error cause after =>
      simp only [DraftStep.answer?, found] at answered
      cases answered
    | ok index later =>
      simp only [DraftStep.answer?, found] at answered
      cases answered
      have done : (DraftStep.constant request).edit draft = .ok () later := edit_discard_of_ok found
      rw [found] at leaves
      rw [DraftStep.after, done]
      exact leaves.2
  | _ => cases answered

/-- **The answers of a construction are settled**, and its pool is put together. Method handles are taken on trust. -/
structure Answered (draft : Draft) (answers : List (ConstantRequest × Index)) : Prop where
  follows : ∃ plan, draft.Follows (fun _ _ => True) plan
  settled : ∀ answer ∈ answers, Pool.Settled answer.1.edit answer.2 draft.pool

variable {answers : List (ConstantRequest × Index)}

/-- **A step keeps the answers settled.** -/
theorem Answered.step (answered : draft.Answered answers) (step : DraftStep) :
    (step.after draft).Answered (answers ++ (step.answer? draft).toList) where
  follows := by
    obtain ⟨plan, follows⟩ := answered.follows
    have advanced := follows.advance step step.trusted_all
    rw [DraftStep.fst_advance] at advanced
    exact ⟨_, advanced⟩
  settled := by
    refine List.forall_mem_append.mpr ⟨fun answer member => ?_, fun answer member => ?_⟩
    · exact (answered.settled answer member).keep (extends_after draft step)
    · exact settled_answer (Option.mem_toList.mp member)

/-- **Any number of steps** keep the answers settled. -/
theorem Answered.run (answered : draft.Answered answers) (steps : List DraftStep) :
    (steps.foldl DraftStep.ask (draft, answers)).1.Answered (steps.foldl DraftStep.ask (draft, answers)).2 := by
  induction steps generalizing draft answers with
  | nil => exact answered
  | cons step rest ih => exact ih (answered.step step)

theorem answered_of_ask {name : String} {superName : Option String} {steps : List DraftStep}
    (asked : ask name superName steps = .ok (draft, answers)) : draft.Answered answers := by
  obtain ⟨first, started, done⟩ := bind_eq_ok.mp asked
  have answered : first.Answered [] := ⟨⟨_, follows_of_start started⟩, nofun⟩
  have ran := answered.run steps
  rw [pure_eq_ok.mp done] at ran
  exact ran

theorem Answered.interned (answered : draft.Answered answers) : draft.pool.Interned answers := by
  obtain ⟨plan, follows⟩ := answered.follows
  exact follows.assembled.interned answered.settled fun answer _ => answer.1.trusted_all

theorem Answered.finish {file : ClassFile} (answered : draft.Answered answers) (finished : draft.finish = .ok file) :
    file.pool.Interned answers := by
  obtain ⟨plan, follows⟩ := answered.follows
  obtain ⟨-, assembled⟩ := follows.finish finished
  refine assembled.interned (fun answer member => ?_) fun answer _ => answer.1.trusted_all
  exact (answered.settled answer member).keep (continues_finish finished)

/-- Answers stay, in their order. -/
theorem prefix_ask (progress : Draft × List (ConstantRequest × Index)) (steps : List DraftStep) :
    progress.2 <+: (steps.foldl DraftStep.ask progress).2 := by
  induction steps generalizing progress with
  | nil => exact List.prefix_rfl
  | cons step rest ih => exact (List.prefix_append _ _).trans (ih (DraftStep.ask progress step))

/-- **The constants of a construction are interned**, whatever its steps are and whichever of them fail: in every later
draft, and in the class that it becomes, for all answers until then. -/
theorem interned_of_ask {name : String} {superName : Option String} {steps : List DraftStep}
    (asked : ask name superName steps = .ok (draft, answers)) (more : List DraftStep) :
    let later := more.foldl DraftStep.ask (draft, answers)
    answers <+: later.2 ∧ later.1.pool.Interned later.2 ∧
      ∀ file, later.1.finish = .ok file → file.pool.Interned later.2 := by
  have answered := (answered_of_ask asked).run more
  exact ⟨prefix_ask (draft, answers) more, answered.interned, fun _ finished => answered.finish finished⟩

/-- The answers of the sample steps. -/
def sampleAnswers : List (ConstantRequest × Index) :=
  [(.member .method "A" "m" "()V", 6), (.methodHandle 5 6, 7)]

/-- A request that was answered, one for a field where there is a method, and one for a text that a class is made of. -/
def sampleRequests : List DraftStep :=
  [.constant (.member .method "A" "m" "()V"), .constant (.member .field "A" "m" "()V"), .constant (.text "A")]

theorem interned_of_ask_sample :
    ask "A" none sampleSteps = .ok (sampleDraft, sampleAnswers) ∧
      let later := sampleRequests.foldl DraftStep.ask (sampleDraft, sampleAnswers)
      later.2 = sampleAnswers ++
        [(.member .method "A" "m" "()V", 6), (.member .field "A" "m" "()V", 9), (.text "A", 1)] ∧
      later.1.pool.Interned later.2 ∧ ∀ file, later.1.finish = .ok file → file.pool.Interned later.2 := by
  have asked : ask "A" none sampleSteps = .ok (sampleDraft, sampleAnswers) := by decide +kernel
  exact ⟨asked, by decide +kernel, (interned_of_ask asked sampleRequests).2⟩

end Draft

end JarRename
