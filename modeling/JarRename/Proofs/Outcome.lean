import Mathlib.Data.List.Forall2

/-!
**Sequences that succeed.**

Checks, readers, walks and edits fail with a cause or go on. A sequence of them succeeds exactly when
its steps do, one after the other, so a run that succeeded can be opened step by step.

* `bind_eq_ok`, `run_bind_eq_ok`, `edit_bind_eq_ok`: a sequence of two;
* `Leaves`, `Leaves.bind`: what edits leave behind, whether they succeed or fail;
* `mapM_eq_ok`, `forM_eq_ok`: a step for each item of a list;
* `eq_error_iff`: what fails is what does not succeed.
-/

namespace JarRename

variable {ε δ α β γ σ : Type}

/-! ### Sequences of two -/

/-- A sequence of outcomes succeeds exactly when both do. -/
theorem bind_eq_ok {first : Except ε α} {next : α → Except ε β} {value : β} :
    (first >>= next) = .ok value ↔ ∃ middle, first = .ok middle ∧ next middle = .ok value := by
  cases first with
  | error cause =>
    constructor
    · intro done
      cases done
    · rintro ⟨middle, done, _⟩
      cases done
  | ok found =>
    constructor
    · intro done
      exact ⟨found, rfl, done⟩
    · rintro ⟨middle, done, rest⟩
      cases done
      exact rest

/-- What follows a step of a known value, unless that step fails for a reason. -/
theorem bind_of_or {first : Except ε α} {next : α → Except ε β} {middle : α} {value : β} {reason : ε → Prop}
    (step : first = .ok middle ∨ ∃ cause, first = .error cause ∧ reason cause) (rest : next middle = .ok value) :
    (first >>= next) = .ok value ∨ ∃ cause, (first >>= next) = .error cause ∧ reason cause := by
  rcases step with rfl | ⟨cause, rfl, known⟩
  · exact .inl rest
  · exact .inr ⟨cause, rfl, known⟩

theorem ok_bind (value : α) (next : α → Except ε β) : (.ok value >>= next) = next value := rfl

theorem pure_eq_ok {value found : α} : (pure value : Except ε α) = .ok found ↔ value = found := by
  constructor
  · intro done
    cases done
    rfl
  · rintro rfl
    rfl

/-- An outcome whose cause is reworded succeeds exactly when the outcome does. -/
theorem mapError_eq_ok {outcome : Except ε α} {reword : ε → δ} {value : α} :
    outcome.mapError reword = .ok value ↔ outcome = .ok value := by
  cases outcome <;> simp [Except.mapError]

/-- An outcome is a failure exactly if it is no success. -/
theorem eq_error_iff {outcome : Except ε α} :
    (∃ cause, outcome = .error cause) ↔ ¬∃ value, outcome = .ok value := by
  cases outcome <;> simp

/-- A sequence of state changing steps, with the state between them. -/
theorem run_bind (first : StateT σ (Except ε) α) (next : α → StateT σ (Except ε) β) (state : σ) :
    (first >>= next) state = first state >>= fun (middle, between) => next middle between :=
  rfl

/-- A sequence of state changing steps succeeds exactly when both do. -/
theorem run_bind_eq_ok {first : StateT σ (Except ε) α} {next : α → StateT σ (Except ε) β}
    {state final : σ} {value : β} :
    (first >>= next) state = .ok (value, final) ↔
      ∃ middle between, first state = .ok (middle, between) ∧
        next middle between = .ok (value, final) := by
  rw [run_bind, bind_eq_ok]
  constructor
  · rintro ⟨⟨middle, between⟩, done, rest⟩
    exact ⟨middle, between, done, rest⟩
  · rintro ⟨middle, between, done, rest⟩
    exact ⟨(middle, between), done, rest⟩

/-- A sequence of state changing steps fails exactly when the first does, or the second after it. -/
theorem run_bind_eq_error {first : StateT σ (Except ε) α} {next : α → StateT σ (Except ε) β} {state : σ} {cause : ε} :
    (first >>= next) state = .error cause ↔
      first state = .error cause ∨
        ∃ middle between, first state = .ok (middle, between) ∧ next middle between = .error cause := by
  rw [run_bind]
  cases found : first state with
  | error other => simp [bind, Except.bind]
  | ok result => simp [bind, Except.bind, Prod.ext_iff]

theorem run_pure_eq_ok {value found : α} {state final : σ} :
    (pure value : StateT σ (Except ε) α) state = .ok (found, final) ↔
      value = found ∧ state = final := by
  constructor
  · intro done
    cases done
    exact ⟨rfl, rfl⟩
  · rintro ⟨rfl, rfl⟩
    rfl

/-- A sequence whose first step is known to succeed goes on with its second. -/
theorem run_bind_of_ok {first : StateT σ (Except ε) α} {next : α → StateT σ (Except ε) β}
    {state between : σ} {middle : α} (done : first state = .ok (middle, between)) :
    (first >>= next) state = next middle between := by
  rw [run_bind, done]
  rfl

/-- A sequence of edits succeeds exactly when both do. -/
theorem edit_bind_eq_ok {first : EStateM ε σ α} {next : α → EStateM ε σ β}
    {state final : σ} {value : β} :
    (first >>= next) state = .ok value final ↔
      ∃ middle between, first state = .ok middle between ∧ next middle between = .ok value final := by
  have opened : (first >>= next) state = EStateM.bind first next state := rfl
  rw [opened]
  unfold EStateM.bind
  cases found : first state with
  | error cause between => simp
  | ok middle between => simp

/-- A sequence of edits fails exactly when the first does, or the second after it. -/
theorem edit_bind_eq_error {first : EStateM ε σ α} {next : α → EStateM ε σ β} {state final : σ} {cause : ε} :
    (first >>= next) state = .error cause final ↔
      first state = .error cause final ∨
        ∃ middle between, first state = .ok middle between ∧ next middle between = .error cause final := by
  have opened : (first >>= next) state = EStateM.bind first next state := rfl
  rw [opened]
  unfold EStateM.bind
  cases found : first state with
  | error other between => simp
  | ok middle between => simp

/-- A sequence of edits goes on with its second, if the first succeeds. -/
theorem edit_bind_of_ok {first : EStateM ε σ α} {next : α → EStateM ε σ β} {state between : σ} {middle : α}
    (done : first state = .ok middle between) : (first >>= next) state = next middle between := by
  show EStateM.bind first next state = _
  rw [EStateM.bind, done]

/-- A sequence of edits fails, if the first does. -/
theorem edit_bind_of_error {first : EStateM ε σ α} {next : α → EStateM ε σ β} {state between : σ} {cause : ε}
    (failed : first state = .error cause between) : (first >>= next) state = .error cause between := by
  show EStateM.bind first next state = _
  rw [EStateM.bind, failed]

/-- An edit whose value is left out ends in the same state. -/
theorem edit_discard_of_ok {edit : EStateM ε σ α} {state after : σ} {value : α} (done : edit state = .ok value after) :
    discard edit state = .ok () after := by
  show EStateM.map (fun _ => ()) edit state = _
  rw [EStateM.map, done]

theorem edit_discard_of_error {edit : EStateM ε σ α} {state after : σ} {cause : ε}
    (failed : edit state = .error cause after) : discard edit state = .error cause after := by
  show EStateM.map (fun _ => ()) edit state = _
  rw [EStateM.map, failed]

theorem edit_pure_eq_ok {value found : α} {state final : σ} :
    (pure value : EStateM ε σ α) state = .ok found final ↔ value = found ∧ state = final := by
  constructor
  · intro done
    cases done
    exact ⟨rfl, rfl⟩
  · rintro ⟨rfl, rfl⟩
    rfl

theorem edit_modify_eq_ok {change : σ → σ} {state final : σ} {value : PUnit} :
    (modify change : EStateM ε σ PUnit) state = .ok value final ↔ change state = final := by
  constructor
  · intro done
    cases done
    rfl
  · rintro rfl
    rfl

/-! ### What an edit leaves behind -/

/-- **An edit leaves a good state behind**, and a value that belongs to it if it succeeds. -/
def Leaves (good : σ → Prop) (done : α → σ → Prop) : EStateM.Result ε σ α → Prop
  | .ok value after => good after ∧ done value after
  | .error _ after => good after

theorem Leaves.mono {good : σ → Prop} {done weaker : α → σ → Prop} {result : EStateM.Result ε σ α}
    (leaves : Leaves good done result) (weaken : ∀ value after, good after → done value after → weaker value after) :
    Leaves good weaker result := by
  cases result with
  | error cause after => exact leaves
  | ok value after => exact ⟨leaves.1, weaken value after leaves.1 leaves.2⟩

/-- A sequence of edits, where a state is good if it is related to the one before. -/
theorem Leaves.bind {related : σ → σ → Prop} [Trans related related related] {first : EStateM ε σ α}
    {next : α → EStateM ε σ β} {state : σ} {done : α → σ → Prop} {last : β → σ → Prop}
    (one : Leaves (related state) done (first state))
    (two : ∀ value middle, related state middle → done value middle →
      Leaves (related middle) last (next value middle)) :
    Leaves (related state) last ((first >>= next) state) := by
  cases step : first state with
  | error cause middle =>
    rw [step] at one
    rw [edit_bind_of_error step]
    exact one
  | ok value middle =>
    rw [step] at one
    have rest := two value middle one.1 one.2
    rw [edit_bind_of_ok step]
    cases ended : next value middle with
    | error cause after =>
      rw [ended] at rest
      exact (Trans.trans one.1 rest : related state after)
    | ok result after =>
      rw [ended] at rest
      exact ⟨(Trans.trans one.1 rest.1 : related state after), rest.2⟩

theorem Leaves.discard {edit : EStateM ε σ α} {state : σ} {good : σ → Prop} {done : α → σ → Prop}
    (leaves : Leaves good done (edit state)) : Leaves good (fun _ _ => True) (discard edit state) := by
  cases found : edit state with
  | error cause after =>
    rw [found] at leaves
    rw [edit_discard_of_error found]
    exact leaves
  | ok value after =>
    rw [found] at leaves
    rw [edit_discard_of_ok found]
    exact ⟨leaves.1, trivial⟩

/-! ### A step for each item -/

/-- A step for each item of a list succeeds exactly when each succeeds. -/
theorem mapM_eq_ok {step : α → Except ε β} {items : List α} {values : List β} :
    items.mapM step = .ok values ↔
      List.Forall₂ (fun item value => step item = .ok value) items values := by
  induction items generalizing values with
  | nil =>
    rw [List.mapM_nil, pure_eq_ok, List.forall₂_nil_left_iff]
    exact eq_comm
  | cons item rest ih =>
    rw [List.mapM_cons, bind_eq_ok, List.forall₂_cons_left_iff]
    constructor
    · rintro ⟨value, done, found⟩
      obtain ⟨later, others, found⟩ := bind_eq_ok.mp found
      exact ⟨value, later, done, ih.mp others, (pure_eq_ok.mp found).symm⟩
    · rintro ⟨value, later, done, others, rfl⟩
      exact ⟨value, done, bind_eq_ok.mpr ⟨later, ih.mpr others, rfl⟩⟩

/-- A check of each item of a list succeeds exactly when each succeeds. -/
theorem forM_eq_ok {check : α → Except ε Unit} {items : List α} :
    items.forM check = .ok () ↔ ∀ item ∈ items, check item = .ok () := by
  induction items with
  | nil => exact ⟨fun _ _ member => absurd member List.not_mem_nil, fun _ => rfl⟩
  | cons item rest ih =>
    have opened : (item :: rest).forM check = check item >>= fun _ => rest.forM check := rfl
    rw [opened, bind_eq_ok, List.forall_mem_cons, ← ih]
    constructor
    · rintro ⟨⟨⟩, done, others⟩
      exact ⟨done, others⟩
    · rintro ⟨done, others⟩
      exact ⟨(), done, others⟩

/-- A step for each item, on lists whose items are related, where each step takes related items to
related values. -/
theorem mapM_related {step : α → Except ε β} {other : γ → Except ε σ}
    {before : α → γ → Prop} {after : β → σ → Prop} {items : List α} {others : List γ}
    {values : List β} (related : List.Forall₂ before items others) (done : items.mapM step = .ok values)
    (steps : ∀ item partner value, item ∈ items → before item partner → step item = .ok value →
      ∃ result, other partner = .ok result ∧ after value result) :
    ∃ results, others.mapM other = .ok results ∧ List.Forall₂ after values results := by
  induction related generalizing values with
  | nil =>
    rw [List.mapM_nil, pure_eq_ok] at done
    subst done
    exact ⟨[], rfl, .nil⟩
  | @cons item partner rest otherRest head tail ih =>
    rw [List.mapM_cons] at done
    obtain ⟨value, first, done⟩ := bind_eq_ok.mp done
    obtain ⟨later, second, done⟩ := bind_eq_ok.mp done
    cases done
    obtain ⟨result, found, good⟩ := steps item partner value List.mem_cons_self head first
    obtain ⟨results, founds, goods⟩ := ih second fun item partner value member =>
      steps item partner value (List.mem_cons_of_mem _ member)
    refine ⟨result :: results, ?_, .cons good goods⟩
    rw [List.mapM_cons, found, founds]
    rfl

/-- Steps that agree on every item of a list. -/
theorem mapM_congr {step other : α → Except ε β} {items : List α} (same : ∀ item ∈ items, step item = other item) :
    items.mapM step = items.mapM other := by
  induction items with
  | nil => rfl
  | cons item rest ih =>
    obtain ⟨first, later⟩ := List.forall_mem_cons.mp same
    rw [List.mapM_cons, List.mapM_cons, first, ih later]

/-- A step that finds nothing for any item. -/
theorem mapM_none {step : α → Except ε (Option β)} {items : List α}
    (nothing : ∀ item ∈ items, step item = .ok none) : items.mapM step = .ok (items.map fun _ => none) := by
  refine mapM_eq_ok.mpr (List.forall₂_map_right_iff.mpr ?_)
  exact List.forall₂_same.mpr nothing

/-! ### What a step for each item gives -/

/-- An item of a list is related to one of a related list. -/
theorem exists_of_forall₂ {rel : α → γ → Prop} {items : List α} {others : List γ}
    (related : List.Forall₂ rel items others) {item : α} (member : item ∈ items) :
    ∃ other ∈ others, rel item other := by
  induction related with
  | nil => cases member
  | cons head _ ih =>
    rcases List.mem_cons.mp member with rfl | member
    · exact ⟨_, List.mem_cons_self, head⟩
    · obtain ⟨other, inside, holds⟩ := ih member
      exact ⟨other, List.mem_cons_of_mem _ inside, holds⟩

variable {step : α → Except ε β} {items : List α} {values : List β}

theorem mem_of_mapM (done : items.mapM step = .ok values) {value : β} (member : value ∈ values) :
    ∃ item ∈ items, step item = .ok value :=
  exists_of_forall₂ (mapM_eq_ok.mp done).flip member

theorem mapM_of_mem (done : items.mapM step = .ok values) {item : α} (member : item ∈ items) :
    ∃ value ∈ values, step item = .ok value :=
  exists_of_forall₂ (mapM_eq_ok.mp done) member

/-- A step for each item of a list succeeds if it succeeds for each item. -/
theorem exists_mapM (each : ∀ item ∈ items, ∃ value, step item = .ok value) :
    ∃ values, items.mapM step = .ok values := by
  induction items with
  | nil => exact ⟨[], rfl⟩
  | cons item rest ih =>
    obtain ⟨value, first⟩ := each item List.mem_cons_self
    obtain ⟨values, others⟩ := ih fun other member => each other (List.mem_cons_of_mem _ member)
    refine ⟨value :: values, ?_⟩
    rw [List.mapM_cons, first, others]
    rfl

/-- A step for each item of an ordered list. -/
theorem pairwise_of_mapM {before : α → α → Prop} {after : β → β → Prop} (ordered : items.Pairwise before)
    (done : items.mapM step = .ok values)
    (steps : ∀ first ∈ items, ∀ second ∈ items, ∀ one two, before first second → step first = .ok one →
      step second = .ok two → after one two) : values.Pairwise after := by
  induction ordered generalizing values with
  | nil =>
    cases done
    exact .nil
  | @cons item items least _ ih =>
    rw [List.mapM_cons] at done
    obtain ⟨value, first, done⟩ := bind_eq_ok.mp done
    obtain ⟨later, others, done⟩ := bind_eq_ok.mp done
    cases done
    refine .cons (fun other member => ?_) (ih others fun one inside two insideToo =>
      steps one (List.mem_cons_of_mem _ inside) two (List.mem_cons_of_mem _ insideToo))
    obtain ⟨second, inside, found⟩ := mem_of_mapM others member
    exact steps item List.mem_cons_self second (List.mem_cons_of_mem _ inside) value other
      (least second inside) first found

/-- Related options are related more loosely. -/
theorem optionRel_imp {rel looser : α → γ → Prop} (loosen : ∀ item other, rel item other → looser item other)
    {item? : Option α} {other? : Option γ} (related : Option.Rel rel item? other?) :
    Option.Rel looser item? other? := by
  cases related with
  | none => exact .none
  | some holds => exact .some (loosen _ _ holds)

/-- A change of the items at one position keeps lists related, if it keeps items related. -/
theorem forall₂_modify {rel : α → γ → Prop} {change : α → α} {other : γ → γ} {others : List γ}
    (related : List.Forall₂ rel items others)
    (changes : ∀ item partner, rel item partner → rel (change item) (other partner)) (position : Nat) :
    List.Forall₂ rel (items.modify position change) (others.modify position other) := by
  induction related generalizing position with
  | nil =>
    rw [List.modify_nil, List.modify_nil]
    exact .nil
  | @cons item partner rest otherRest head tail ih =>
    cases position with
    | zero =>
      rw [List.modify_zero_cons, List.modify_zero_cons]
      exact .cons (changes item partner head) tail
    | succ position =>
      rw [List.modify_succ_cons, List.modify_succ_cons]
      exact .cons head (ih position)

/-- What all items of a list have, they have after a change of one item that keeps it. -/
theorem forall_mem_modify {good : α → Prop} {change : α → α} (each : ∀ item ∈ items, good item)
    (changes : ∀ item, good item → good (change item)) (position : Nat) :
    ∀ item ∈ items.modify position change, good item := by
  have related : List.Forall₂ (fun item _ => good item) items items := List.forall₂_same.mpr each
  have changed : List.Forall₂ (fun item _ => good item) (items.modify position change) (items.modify position change) :=
    forall₂_modify related (fun item _ => changes item) position
  have kept := List.forall₂_same.mp changed
  exact kept

/-- The items of a list with their positions are in order. -/
theorem pairwise_zipIdx (items : List α) (start : Nat) :
    (items.zipIdx start).Pairwise fun first second => first.2 < second.2 := by
  have ordered := List.pairwise_lt_range' (s := start) (n := items.length)
  rw [← List.zipIdx_map_snd, List.pairwise_map] at ordered
  exact ordered

/-- Lists of one length whose items are related position by position. -/
theorem forall₂_of_positions {rel : α → γ → Prop} {others : List γ} (length : others.length = items.length)
    (each : ∀ (position : Nat) item other, items[position]? = some item → others[position]? = some other →
      rel item other) : List.Forall₂ rel items others := by
  refine List.forall₂_iff_get.mpr ⟨length.symm, fun position inside otherInside => ?_⟩
  exact each position _ _ (List.getElem?_eq_getElem inside) (List.getElem?_eq_getElem otherInside)

/-- The same for lists with the positions of their items. -/
theorem forall₂_zipIdx {rel : α × Nat → γ × Nat → Prop} {others : List γ}
    (length : others.length = items.length)
    (each : ∀ (position : Nat) item other, items[position]? = some item → others[position]? = some other →
      rel (item, position) (other, position)) : List.Forall₂ rel items.zipIdx others.zipIdx := by
  refine forall₂_of_positions (by rw [List.length_zipIdx, List.length_zipIdx, length]) ?_
  rintro position ⟨item, place⟩ ⟨other, otherPlace⟩ found otherFound
  rw [List.getElem?_zipIdx, Nat.zero_add] at found otherFound
  obtain ⟨_, here, same⟩ := Option.map_eq_some_iff.mp found
  obtain ⟨_, there, otherSame⟩ := Option.map_eq_some_iff.mp otherFound
  cases same
  cases otherSame
  exact each _ _ _ here there

end JarRename
