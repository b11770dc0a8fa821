import JarRename.Proofs.Pool.Assembled

/-!
**Answers that stay.**

A request that was answered finds its constants ever after: asked again, it gets the same index and changes nothing,
however many constants were put behind the pool since. What an index stands for says which request it answers, so an
index answers one request only.

* `Pool.Continues.indexOf?`: the first index of a constant stays;
* `Pool.Settled`, `Pool.Settles`: answers that stay, and edits whose answers do, closed under sequences;
* `Pool.request?`, `ConstantRequest.eq_of_resolves`: the request that an index answers;
* `Pool.Interned`, `Pool.Assembled.interned`: a pool and all requests that were answered from it.
-/

namespace JarRename

namespace Pool

variable {α β : Type} {before after pool : Pool} {index : Index} {constant : Constant}

/-! ### The first index of a constant -/

/-- The first index of a constant is the first still when others were put behind it. -/
theorem Continues.indexOf? (continues : Continues before after) (found : before.indexOf? constant = some index) :
    after.indexOf? constant = some index := by
  obtain ⟨position, first, rfl⟩ := Option.map_eq_some_iff.mp found
  obtain ⟨inside, same, earlier⟩ := Array.findIdx?_eq_some_iff_getElem.mp first
  have kept (place : Nat) (within : place < before.slots.size) :
      ∃ bound : place < after.slots.size, after.slots[place] = before.slots[place] :=
    Array.getElem?_eq_some_iff.mp (continues _ _ (Array.getElem?_eq_getElem within))
  refine Option.map_eq_some_iff.mpr ⟨position, Array.findIdx?_eq_some_iff_getElem.mpr ?_, rfl⟩
  obtain ⟨bound, stays⟩ := kept position inside
  refine ⟨bound, stays ▸ same, fun place sooner => ?_⟩
  obtain ⟨_, staysToo⟩ := kept place (Nat.lt_trans sooner inside)
  rw [staysToo]
  exact earlier place sooner

/-- A constant that no slot holds has its first index where it is put. -/
theorem indexOf?_push (missing : pool.indexOf? constant = none) :
    (pool.push constant).indexOf? constant = some pool.nextIndex := by
  have none : pool.slots.findIdx? (· == constant) = none := Option.map_eq_none_iff.mp missing
  unfold push
  cases constant.isWide <;> simp [indexOf?, Array.findIdx?_push, none, nextIndex, size]

theorem intern_of_indexOf? (found : pool.indexOf? constant = some index) : intern constant pool = .ok index pool := by
  rw [intern, found]

/-! ### Answers -/

/-- **The answer of an edit is settled.** Made again, in the pool as it is or with more constants behind it, the edit
gives it again and leaves the pool as it is. -/
def Settled (edit : PoolEdit α) (value : α) (pool : Pool) : Prop :=
  ∀ later, Continues pool later → edit later = .ok value later

theorem Settled.keep {edit : PoolEdit α} {value : α} (settled : Settled edit value before)
    (continues : Continues before after) : Settled edit value after :=
  fun later more => settled later (continues.trans more)

instance : Trans Continues Continues Continues := ⟨Continues.trans⟩

/-- The edit puts constants behind the pool at most, even if it fails, and an answer of it is settled. -/
def Settles (edit : PoolEdit α) : Prop :=
  ∀ pool, Leaves (Continues pool) (Settled edit) (edit pool)

theorem settles_intern (constant : Constant) : Settles (intern constant) := by
  intro pool
  cases done : intern constant pool with
  | error cause after =>
    rw [(intern_eq_error done).2]
    exact .refl pool
  | ok index after =>
    unfold intern at done
    split at done
    next found =>
      cases done
      exact ⟨.refl pool, fun later continues => intern_of_indexOf? (continues.indexOf? found)⟩
    next missing =>
      obtain ⟨-, rfl, rfl⟩ := insert_eq_ok.mp done
      refine ⟨.push pool constant, fun later continues => intern_of_indexOf? ?_⟩
      exact continues.indexOf? (indexOf?_push missing)

theorem Settles.bind {first : PoolEdit α} {next : α → PoolEdit β} (one : Settles first)
    (two : ∀ value, Settles (next value)) : Settles (first >>= next) := by
  intro pool
  apply Leaves.bind (one pool)
  intro value middle _ settled
  apply (two value middle).mono
  intro result after ended settledNext later continues
  rw [edit_bind_of_ok (settled later (ended.trans continues)), settledNext later continues]

theorem settles_internClass (name : String) : Settles (internClass name) :=
  (settles_intern _).bind fun _ => settles_intern _

theorem settles_internNameAndType (name descriptor : String) : Settles (internNameAndType name descriptor) :=
  (settles_intern _).bind fun _ => (settles_intern _).bind fun _ => settles_intern _

/-! ### What an index answers -/

/-- The request that an index answers, read back from its constant. -/
def request? (pool : Pool) (index : Index) : Option ConstantRequest := do
  match ← pool.slot? index with
  | .utf8 _ =>
    let value ← (pool.utf8 index).toOption
    return .text value
  | .classRef _ =>
    let name ← (pool.className index).toOption
    return .classRef name
  | .string target =>
    let value ← (pool.utf8 target).toOption
    return .string value
  | .nameAndType _ _ =>
    let (name, descriptor) ← (pool.nameAndType index).toOption
    return .nameAndType name descriptor
  | .field _ _ | .method _ _ | .interfaceMethod _ _ =>
    let { kind, owner, name, descriptor } ← (pool.memberRef index).toOption
    return .member kind owner name descriptor
  | .methodType target =>
    let descriptor ← (pool.utf8 target).toOption
    return .methodType descriptor
  | .methodHandle kind target => return .methodHandle kind target
  | .invokeDynamic bootstrap pair =>
    let (name, descriptor) ← (pool.nameAndType pair).toOption
    return .invokeDynamic bootstrap name descriptor
  | _ => none

end Pool

namespace ConstantRequest

variable {pool : Pool} {index : Index} {request : ConstantRequest}

theorem request?_of_resolves (resolves : request.Resolves pool index) : pool.request? index = some request := by
  cases request with
  | text value =>
    obtain ⟨bytes, slot, -⟩ := Pool.utf8_eq_ok.mp resolves
    have read : pool.utf8 index = .ok value := resolves
    simp [Pool.request?, slot, read, Except.toOption]
  | classRef name =>
    obtain ⟨target, slot, -⟩ := Pool.className_eq_ok.mp resolves
    have read : pool.className index = .ok name := resolves
    simp [Pool.request?, slot, read, Except.toOption]
  | string value =>
    obtain ⟨target, slot, read⟩ := resolves
    simp [Pool.request?, slot, read, Except.toOption]
  | nameAndType name descriptor =>
    obtain ⟨first, second, slot, -⟩ := Pool.nameAndType_eq_ok.mp resolves
    have read : pool.nameAndType index = .ok (name, descriptor) := resolves
    simp [Pool.request?, slot, read, Except.toOption]
  | member kind owner name descriptor =>
    obtain ⟨first, second, slot, -⟩ := Pool.memberRef_eq_ok.mp resolves
    have read : pool.memberRef index = .ok { kind, owner, name, descriptor } := resolves
    cases kind <;> simp [Pool.request?, MemberKind.constant, slot, read, Except.toOption]
  | methodType descriptor =>
    obtain ⟨target, slot, read⟩ := resolves
    simp [Pool.request?, slot, read, Except.toOption]
  | methodHandle kind target =>
    have slot : pool.slot? index = some (.methodHandle kind target) := resolves
    simp [Pool.request?, slot]
  | invokeDynamic bootstrap name descriptor =>
    obtain ⟨pair, slot, read⟩ := resolves
    simp [Pool.request?, slot, read, Except.toOption]

/-- **An index answers one request only.** -/
theorem eq_of_resolves {other : ConstantRequest} (one : request.Resolves pool index)
    (two : other.Resolves pool index) : request = other :=
  Option.some.inj ((request?_of_resolves one).symm.trans (request?_of_resolves two))

/-- **The answer of every request is settled.** -/
theorem settles_edit (request : ConstantRequest) : Pool.Settles request.edit := by
  cases request with
  | text value => exact Pool.settles_intern _
  | classRef name => exact Pool.settles_internClass name
  | string value => exact (Pool.settles_intern _).bind fun _ => Pool.settles_intern _
  | nameAndType name descriptor => exact Pool.settles_internNameAndType name descriptor
  | member kind owner name descriptor =>
    refine (Pool.settles_internClass owner).bind fun _ => ?_
    refine (Pool.settles_internNameAndType name descriptor).bind fun _ => ?_
    cases kind <;> exact Pool.settles_intern _
  | methodType descriptor => exact (Pool.settles_intern _).bind fun _ => Pool.settles_intern _
  | methodHandle kind target => exact Pool.settles_intern _
  | invokeDynamic bootstrap name descriptor =>
    exact (Pool.settles_internNameAndType name descriptor).bind fun _ => Pool.settles_intern _

end ConstantRequest

namespace Pool

/-! ### A pool and its answers -/

/-- **A pool whose constants are interned**, with the requests that were answered from it and their indices: no constant
is there twice, two requests have the same index exactly if they are the same, and every index stands for what was
asked. -/
structure Interned (pool : Pool) (answers : List (ConstantRequest × Index)) : Prop where
  distinct : ∀ first second constant,
    pool.get first = .ok constant → pool.get second = .ok constant → first = second
  same_iff : ∀ one ∈ answers, ∀ two ∈ answers, one.2 = two.2 ↔ one.1 = two.1
  resolves : ∀ answer ∈ answers, answer.1.Resolves pool answer.2

variable {pool : Pool} {handles : UInt8 → Index → Prop} {answers : List (ConstantRequest × Index)}

theorem Assembled.eq_of_get (assembled : pool.Assembled handles) {first second : Index} {constant : Constant}
    (one : pool.get first = .ok constant) (two : pool.get second = .ok constant) : first = second := by
  obtain ⟨nonzero, slot⟩ := slot?_eq_some.mp (get_eq_ok.mp one).1
  obtain ⟨nonzeroToo, slotToo⟩ := slot?_eq_some.mp (get_eq_ok.mp two).1
  rw [← Array.getElem?_toList] at slot slotToo
  have inside := (List.getElem?_eq_some_iff.mp slot).1
  have same := (List.getElem?_inj inside assembled.distinct).mp (slot.trans slotToo.symm)
  have positive : first.toNat ≠ 0 := toNat_ne_zero nonzero
  have positiveToo : second.toNat ≠ 0 := toNat_ne_zero nonzeroToo
  apply UInt16.toNat.inj
  omega

/-- Asked again in the pool as it is, a settled request gets its index, which stands for it. -/
theorem Settled.resolves {request : ConstantRequest} {index : Index} (settled : Settled request.edit index pool)
    (assembled : pool.Assembled handles) (trusted : request.Trusted handles) : request.Resolves pool index := by
  have leaves := request.leaves_edit assembled trusted
  rw [settled pool (.refl pool)] at leaves
  exact leaves.2

/-- **A pool that is put together is interned**, as far as its answers are settled. -/
theorem Assembled.interned (assembled : pool.Assembled handles)
    (settled : ∀ answer ∈ answers, Settled answer.1.edit answer.2 pool)
    (trusted : ∀ answer ∈ answers, answer.1.Trusted handles) : pool.Interned answers := by
  have resolves (answer : ConstantRequest × Index) (member : answer ∈ answers) : answer.1.Resolves pool answer.2 :=
    (settled answer member).resolves assembled (trusted answer member)
  constructor
  case distinct => exact fun first second constant => assembled.eq_of_get
  case resolves => exact resolves
  case same_iff =>
    rintro ⟨one, index⟩ member ⟨two, other⟩ memberToo
    constructor
    · rintro rfl
      exact ConstantRequest.eq_of_resolves (resolves _ member) (resolves _ memberToo)
    · rintro rfl
      have again : EStateM.Result.ok index pool = .ok other pool :=
        (settled _ member pool (.refl pool)).symm.trans (settled _ memberToo pool (.refl pool))
      cases again
      rfl

end Pool

end JarRename
