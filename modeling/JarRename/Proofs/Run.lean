import JarRename.Proofs.Outcome
import JarRename.Run

/-!
**Runs without their logs.**

A run comes to a value or an error and leaves files behind. What it comes to never depends on the log, neither on the
lines logged before nor on those it logs itself. Most runs only read; one that writes does so when nothing can fail
any more, so a failure leaves the files as they were.

* `Run.outcome`, `Run.Agree`: what a run comes to, and runs that come to the same on the same files;
* `Run.Reads`: runs that leave the files as they are, closed under sequences and loops;
* `Run.Atomic`, `Run.Reads.bind_atomic`: runs that leave them so if they fail.
-/

namespace JarRename.Run

variable {α β : Type}

/-- What a run comes to: its value or error, and the files behind it. -/
def outcome : EStateM.Result Error World α → Except Error α × Files
  | .ok value world => (.ok value, world.files)
  | .error error world => (.error error, world.files)

theorem exists_of_outcome_ok {result : EStateM.Result Error World α} {value : α} {files : Files}
    (came : outcome result = (.ok value, files)) : ∃ later, result = .ok value later ∧ later.files = files := by
  cases result with
  | ok found later =>
    cases came
    exact ⟨later, rfl, rfl⟩
  | error error later => cases came

theorem exists_of_outcome_error {result : EStateM.Result Error World α} {error : Error} {files : Files}
    (came : outcome result = (.error error, files)) : ∃ later, result = .error error later ∧ later.files = files := by
  cases result with
  | ok found later => cases came
  | error cause later =>
    cases came
    exact ⟨later, rfl, rfl⟩

/-- A sequence fails if its first step fails or what follows does. -/
theorem outcome_bind_eq_error {first : Run α} {next : α → Run β} {world : World} {error : Error} {files : Files} :
    outcome ((first >>= next) world) = (.error error, files) ↔
      outcome (first world) = (.error error, files) ∨
        ∃ value later, first world = .ok value later ∧ outcome (next value later) = (.error error, files) := by
  cases ran : first world with
  | ok value later =>
    rw [edit_bind_of_ok ran]
    refine ⟨fun came => .inr ⟨value, later, rfl, came⟩, ?_⟩
    rintro (came | ⟨_, _, ⟨⟩, came⟩)
    · cases came
    · exact came
  | error cause later =>
    rw [edit_bind_of_error ran]
    constructor
    · rintro ⟨⟩
      exact .inl rfl
    · rintro (⟨⟨⟩⟩ | ⟨_, _, ⟨⟩, -⟩)
      rfl

/-! ### Agreement -/

/-- Two runs come to the same whenever they start with the same files. -/
def Agree (first second : Run α) : Prop :=
  ∀ world other, world.files = other.files → outcome (first world) = outcome (second other)

namespace Agree

variable {first second third : Run α}

theorem symm (agree : Agree first second) : Agree second first :=
  fun world other same => (agree other world same.symm).symm

theorem trans (agree : Agree first second) (next : Agree second third) : Agree first third :=
  fun world other same => (agree world other same).trans (next other other rfl)

theorem pure (value : α) : Agree (Pure.pure value) (Pure.pure value) :=
  fun _ _ same => congrArg (Prod.mk (Except.ok value)) same

/-- **Sequences agree** if their first steps do and what follows does. -/
theorem bind (agree : Agree first second) {next other : α → Run β} (rest : ∀ value, Agree (next value) (other value)) :
    Agree (first >>= next) (second >>= other) := by
  intro world partner same
  have came := agree world partner same
  cases ran : first world with
  | ok value later =>
    rw [ran] at came
    obtain ⟨final, done, files⟩ := exists_of_outcome_ok came.symm
    rw [edit_bind_of_ok ran, edit_bind_of_ok done]
    exact rest value later final files.symm
  | error error later =>
    rw [ran] at came
    obtain ⟨final, failed, files⟩ := exists_of_outcome_error came.symm
    rw [edit_bind_of_error ran, edit_bind_of_error failed]
    exact congrArg (Prod.mk (Except.error error)) files.symm

/-- A line logged in front makes no difference. -/
theorem log_bind (agree : Agree first second) (level : Level) (message : String) :
    Agree (log level message >>= fun _ => first) second :=
  fun world other same => agree { world with log := world.log.push { level, message } } other same

end Agree

/-! ### Reading -/

/-- A run that only reads: what it comes to depends on the files alone, and they stay as they are. -/
structure Reads (run : Run α) : Prop where
  agree : Agree run run
  keeps : ∀ world, (outcome (run world)).2 = world.files

namespace Reads

theorem pure (value : α) : Reads (Pure.pure value) :=
  ⟨.pure value, fun _ => rfl⟩

theorem log (level : Level) (message : String) : Reads (Run.log level message) :=
  ⟨fun _ _ same => congrArg (Prod.mk (Except.ok ())) same, fun _ => rfl⟩

theorem files : Reads Run.files :=
  ⟨fun _ _ same => congrArg (fun found => (Except.ok found, found)) same, fun _ => rfl⟩

theorem fail (error : Error) : Reads (throw error : Run α) :=
  ⟨fun _ _ same => congrArg (Prod.mk (Except.error error)) same, fun _ => rfl⟩

theorem check (found : Except Error α) : Reads (Run.check found) := by
  cases found with
  | ok value => exact pure value
  | error error => exact fail error

/-- **A sequence of reading runs** only reads. -/
theorem bind {first : Run α} (reads : Reads first) {next : α → Run β} (rest : ∀ value, Reads (next value)) :
    Reads (first >>= next) := by
  refine ⟨reads.agree.bind fun value => (rest value).agree, fun world => ?_⟩
  have kept := reads.keeps world
  cases ran : first world with
  | ok value later =>
    rw [ran] at kept
    rw [edit_bind_of_ok ran, (rest value).keeps later]
    exact kept
  | error error later =>
    rw [ran] at kept
    rw [edit_bind_of_error ran]
    exact kept

theorem files_of_ok {run : Run α} (reads : Reads run) {world later : World} {value : α}
    (done : run world = .ok value later) : later.files = world.files := by
  have kept := reads.keeps world
  rw [done] at kept
  exact kept

theorem mapM {step : α → Run β} (reads : ∀ item, Reads (step item)) (items : List α) : Reads (items.mapM step) := by
  induction items with
  | nil => exact pure []
  | cons item rest ih =>
    rw [List.mapM_cons]
    exact (reads item).bind fun value => ih.bind fun values => pure (value :: values)

theorem foldlM {step : β → α → Run β} (reads : ∀ state item, Reads (step state item)) (start : β) (items : List α) :
    Reads (items.foldlM step start) := by
  induction items generalizing start with
  | nil => exact pure start
  | cons item rest ih =>
    rw [List.foldlM_cons]
    exact (reads start item).bind ih

end Reads

/-! ### All or nothing -/

/-- A run whose outcome depends on the files alone, and that leaves them as they are if it fails. -/
structure Atomic (run : Run α) : Prop where
  agree : Agree run run
  keeps : ∀ world error files, outcome (run world) = (.error error, files) → files = world.files

/-- **A run that reads and goes on all or nothing** is all or nothing. -/
theorem Reads.bind_atomic {first : Run α} (reads : Reads first) {next : α → Run β}
    (rest : ∀ value, Atomic (next value)) : Atomic (first >>= next) := by
  refine ⟨reads.agree.bind fun value => (rest value).agree, fun world error files failed => ?_⟩
  rcases outcome_bind_eq_error.mp failed with stopped | ⟨value, later, done, stopped⟩
  · have kept := reads.keeps world
    rw [stopped] at kept
    exact kept
  · exact ((rest value).keeps later error files stopped).trans (reads.files_of_ok done)

end JarRename.Run
