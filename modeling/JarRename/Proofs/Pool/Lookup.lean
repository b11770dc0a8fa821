import JarRename.Pool.Check
import JarRename.Proofs.Outcome

/-!
**What an index stands for.**

Every lookup of a pool succeeds exactly when a slot holds a constant of the right kind, and gives what
the constants at the indices in it stand for. Format checking says that every constant in use refers to
constants of the right kinds.

* `Pool.Has`: an index of a constant of a kind;
* `Pool.utf8_eq_ok`, `Pool.className_eq_ok`, `Pool.nameAndType_eq_ok`, `Pool.memberRef_eq_ok`: the lookups;
* `Pool.mem_entries`: the entries are the constants in use;
* `Pool.RefersIn`, `Pool.check_eq_ok`: format checking.
-/

namespace JarRename

/-- The constant of a member of a sort. -/
def MemberKind.constant : MemberKind → Index → Index → Constant
  | field => .field
  | method => .method
  | interfaceMethod => .interfaceMethod

namespace Pool

variable {pool : Pool} {index : Index}

/-! ### Slots -/

theorem toNat_ne_zero (nonzero : index ≠ 0) : index.toNat ≠ 0 :=
  fun zero => nonzero (UInt16.toNat.inj zero)

/-- An index points at a slot by its distance from one. -/
theorem slot?_eq_some {constant : Constant} :
    pool.slot? index = some constant ↔
      index ≠ 0 ∧ pool.slots[index.toNat - 1]? = some constant := by
  unfold slot?
  by_cases zero : index = 0
  · rw [if_pos zero]
    exact ⟨nofun, fun both => absurd zero both.1⟩
  · rw [if_neg zero]
    exact ⟨fun found => ⟨zero, found⟩, fun both => both.2⟩

/-- A constant in use is one that is not an upper half. -/
theorem get_eq_ok {constant : Constant} :
    pool.get index = .ok constant ↔ pool.slot? index = some constant ∧ constant ≠ .reserved := by
  unfold get
  split
  next missing =>
    rw [missing]
    exact ⟨nofun, nofun⟩
  next upper =>
    rw [upper]
    refine ⟨nofun, ?_⟩
    rintro ⟨same, used⟩
    exact absurd (Option.some.inj same).symm used
  next other used found =>
    rw [found, Except.ok.injEq, Option.some.injEq]
    refine ⟨?_, fun both => both.1⟩
    rintro rfl
    exact ⟨rfl, used⟩

/-- The index points at a constant of the kind. -/
def Has (pool : Pool) (kind : Kind) (index : Index) : Prop :=
  ∃ constant, pool.get index = .ok constant ∧ constant.kind = kind

/-! ### Lookups -/

theorem utf8Bytes_eq_ok {bytes : Bytes} :
    pool.utf8Bytes index = .ok bytes ↔ pool.slot? index = some (.utf8 bytes) := by
  constructor
  · intro done
    obtain ⟨constant, found, done⟩ := bind_eq_ok.mp done
    cases constant <;> cases done
    exact (get_eq_ok.mp found).1
  · intro found
    have used : pool.get index = .ok (.utf8 bytes) := get_eq_ok.mpr ⟨found, nofun⟩
    rw [utf8Bytes, used]
    rfl

theorem classRef_eq_ok {name : Index} :
    pool.classRef index = .ok name ↔ pool.slot? index = some (.classRef name) := by
  constructor
  · intro done
    obtain ⟨constant, found, done⟩ := bind_eq_ok.mp done
    cases constant <;> cases done
    exact (get_eq_ok.mp found).1
  · intro found
    have used : pool.get index = .ok (.classRef name) := get_eq_ok.mpr ⟨found, nofun⟩
    rw [classRef, used]
    rfl

theorem nameAndTypeRef_eq_ok {name descriptor : Index} :
    pool.nameAndTypeRef index = .ok (name, descriptor) ↔
      pool.slot? index = some (.nameAndType name descriptor) := by
  constructor
  · intro done
    obtain ⟨constant, found, done⟩ := bind_eq_ok.mp done
    cases constant <;> cases done
    exact (get_eq_ok.mp found).1
  · intro found
    have used : pool.get index = .ok (.nameAndType name descriptor) := get_eq_ok.mpr ⟨found, nofun⟩
    rw [nameAndTypeRef, used]
    rfl

theorem methodHandle_eq_ok {kind : UInt8} {target : Index} :
    pool.methodHandle index = .ok (kind, target) ↔
      pool.slot? index = some (.methodHandle kind target) := by
  constructor
  · intro done
    obtain ⟨constant, found, done⟩ := bind_eq_ok.mp done
    cases constant <;> cases done
    exact (get_eq_ok.mp found).1
  · intro found
    have used : pool.get index = .ok (.methodHandle kind target) := get_eq_ok.mpr ⟨found, nofun⟩
    rw [methodHandle, used]
    rfl

theorem member_eq_ok {kind : MemberKind} {owner pair : Index} :
    pool.member index = .ok (kind, owner, pair) ↔ pool.slot? index = some (kind.constant owner pair) := by
  constructor
  · intro done
    obtain ⟨constant, found, done⟩ := bind_eq_ok.mp done
    cases constant <;> cases done <;> exact (get_eq_ok.mp found).1
  · intro found
    have used : pool.get index = .ok (kind.constant owner pair) :=
      get_eq_ok.mpr ⟨found, by cases kind <;> nofun⟩
    rw [member, used]
    cases kind <;> rfl

/-- A text is the decoded contents of a text constant. -/
theorem utf8_eq_ok {text : String} :
    pool.utf8 index = .ok text ↔
      ∃ bytes, pool.slot? index = some (.utf8 bytes) ∧ Text.decode bytes = .ok text := by
  rw [utf8, bind_eq_ok]
  simp only [utf8Bytes_eq_ok]

/-- The name of a class is the text its constant points at. -/
theorem className_eq_ok {text : String} :
    pool.className index = .ok text ↔
      ∃ name, pool.slot? index = some (.classRef name) ∧ pool.utf8 name = .ok text := by
  rw [className, bind_eq_ok]
  simp only [classRef_eq_ok]

/-- A name and type are the two texts its constant points at. -/
theorem nameAndType_eq_ok {name descriptor : String} :
    pool.nameAndType index = .ok (name, descriptor) ↔
      ∃ first second, pool.slot? index = some (.nameAndType first second) ∧
        pool.utf8 first = .ok name ∧ pool.utf8 second = .ok descriptor := by
  rw [nameAndType, bind_eq_ok]
  constructor
  · rintro ⟨⟨first, second⟩, found, done⟩
    obtain ⟨firstText, firstDone, done⟩ := bind_eq_ok.mp done
    obtain ⟨secondText, secondDone, done⟩ := bind_eq_ok.mp done
    cases done
    exact ⟨first, second, nameAndTypeRef_eq_ok.mp found, firstDone, secondDone⟩
  · rintro ⟨first, second, found, firstDone, secondDone⟩
    exact ⟨(first, second), nameAndTypeRef_eq_ok.mpr found,
      bind_eq_ok.mpr ⟨name, firstDone, bind_eq_ok.mpr ⟨descriptor, secondDone, rfl⟩⟩⟩

/-- A member is the class and the name and type its constant points at. -/
theorem memberRef_eq_ok {member : MemberRef} :
    pool.memberRef index = .ok member ↔
      ∃ owner pair, pool.slot? index = some (member.kind.constant owner pair) ∧
        pool.nameAndType pair = .ok (member.name, member.descriptor) ∧
        pool.className owner = .ok member.owner := by
  rw [memberRef, bind_eq_ok]
  constructor
  · rintro ⟨⟨kind, owner, pair⟩, found, done⟩
    obtain ⟨⟨name, descriptor⟩, pairDone, done⟩ := bind_eq_ok.mp done
    obtain ⟨ownerName, ownerDone, done⟩ := bind_eq_ok.mp done
    cases done
    exact ⟨owner, pair, member_eq_ok.mp found, pairDone, ownerDone⟩
  · rintro ⟨owner, pair, found, pairDone, ownerDone⟩
    exact ⟨(member.kind, owner, pair), member_eq_ok.mpr found,
      bind_eq_ok.mpr ⟨(member.name, member.descriptor), pairDone,
        bind_eq_ok.mpr ⟨member.owner, ownerDone, rfl⟩⟩⟩

/-! ### Constants of a kind -/

theorem has_utf8 : pool.Has .utf8 index ↔ ∃ bytes, pool.utf8Bytes index = .ok bytes := by
  simp only [utf8Bytes_eq_ok]
  constructor
  · rintro ⟨constant, found, kind⟩
    cases constant <;> cases kind
    exact ⟨_, (get_eq_ok.mp found).1⟩
  · rintro ⟨bytes, found⟩
    exact ⟨.utf8 bytes, get_eq_ok.mpr ⟨found, nofun⟩, rfl⟩

theorem has_classRef : pool.Has .classRef index ↔ ∃ name, pool.classRef index = .ok name := by
  simp only [classRef_eq_ok]
  constructor
  · rintro ⟨constant, found, kind⟩
    cases constant <;> cases kind
    exact ⟨_, (get_eq_ok.mp found).1⟩
  · rintro ⟨name, found⟩
    exact ⟨.classRef name, get_eq_ok.mpr ⟨found, nofun⟩, rfl⟩

theorem has_nameAndType : pool.Has .nameAndType index ↔ ∃ pair, pool.nameAndTypeRef index = .ok pair := by
  constructor
  · rintro ⟨constant, found, kind⟩
    cases constant <;> cases kind
    exact ⟨_, nameAndTypeRef_eq_ok.mpr (get_eq_ok.mp found).1⟩
  · rintro ⟨⟨name, descriptor⟩, found⟩
    exact ⟨.nameAndType name descriptor, get_eq_ok.mpr ⟨nameAndTypeRef_eq_ok.mp found, nofun⟩, rfl⟩

/-- Index zero points at nothing. -/
theorem Has.ne_zero {kind : Kind} (has : pool.Has kind index) : index ≠ 0 := by
  obtain ⟨constant, found, _⟩ := has
  exact (slot?_eq_some.mp (get_eq_ok.mp found).1).1

/-! ### Entries -/

/-- The entries of a pool are its constants in use. -/
theorem mem_entries (small : pool.size ≤ maxSlots) {constant : Constant} :
    (index, constant) ∈ pool.entries ↔ pool.get index = .ok constant := by
  unfold maxSlots at small
  rw [get_eq_ok, slot?_eq_some, entries, List.mem_filterMap]
  constructor
  · rintro ⟨⟨other, position⟩, member, kept⟩
    obtain ⟨low, found⟩ := List.mk_mem_zipIdx_iff_le_and_getElem?_sub.mp member
    rw [Array.getElem?_toList] at found
    by_cases reserved : other = .reserved
    · simp only [if_pos reserved] at kept
      cases kept
    · simp only [if_neg reserved, Option.some.injEq, Prod.mk.injEq] at kept
      obtain ⟨rfl, rfl⟩ := kept
      have high := (Array.getElem?_eq_some_iff.mp found).1
      have fits : position < 65536 := by
        have : pool.slots.size ≤ 65534 := small
        omega
      have same : (UInt16.ofNat position).toNat = position := UInt16.toNat_ofNat_of_lt' fits
      refine ⟨⟨?_, by rw [same, found]⟩, reserved⟩
      intro zero
      rw [zero] at same
      have : (0 : UInt16).toNat = 0 := rfl
      omega
  · rintro ⟨⟨nonzero, found⟩, used⟩
    have positive : index.toNat ≠ 0 := toNat_ne_zero nonzero
    refine ⟨(constant, index.toNat), ?_, ?_⟩
    · rw [List.mk_mem_zipIdx_iff_le_and_getElem?_sub, Array.getElem?_toList]
      exact ⟨by omega, found⟩
    · simp only [if_neg used, UInt16.ofNat_toNat]

/-! ### Format checking -/

/-- The constants that a constant refers to have the right kinds. -/
def RefersIn (pool : Pool) : Constant → Prop
  | .classRef name | .moduleRef name | .packageRef name | .string name | .methodType name =>
    pool.Has .utf8 name
  | .field owner pair | .method owner pair | .interfaceMethod owner pair =>
    pool.Has .classRef owner ∧ pool.Has .nameAndType pair
  | .nameAndType name descriptor => pool.Has .utf8 name ∧ pool.Has .utf8 descriptor
  | .methodHandle handle target =>
    ∃ constant, pool.get target = .ok constant ∧ handleAccepts? handle constant.kind = some true
  | .dynamic _ pair | .invokeDynamic _ pair => pool.Has .nameAndType pair
  | .utf8 _ | .integer _ | .float _ | .long _ | .double _ | .reserved => True

theorem checkHandle_eq_ok {handle : UInt8} {target : Index} :
    pool.checkHandle handle target = .ok () ↔
      ∃ constant, pool.get target = .ok constant ∧
        handleAccepts? handle constant.kind = some true := by
  rw [checkHandle, bind_eq_ok]
  refine exists_congr fun constant => and_congr_right fun _ => ?_
  split
  next answer => simp [answer]
  next answer => simp [answer, pure_eq_ok]
  next answer => simp [answer]

/-- A check that only looks whether something is found. -/
theorem found_eq_ok {α : Type} {outcome : Except Fault α} :
    (outcome >>= fun _ => pure ()) = (.ok () : Except Fault Unit) ↔ ∃ value, outcome = .ok value := by
  rw [bind_eq_ok]
  exact exists_congr fun value => ⟨fun both => both.1, fun done => ⟨done, rfl⟩⟩

/-- The rule of a constant holds exactly when it refers to constants of the right kinds. -/
theorem checkConstant_eq_ok {constant : Constant} :
    pool.checkConstant constant = .ok () ↔ pool.RefersIn constant := by
  have both {α β : Type} {first : Except Fault α} {second : Except Fault β} :
      (first >>= fun _ => second >>= fun _ => pure ()) = (.ok () : Except Fault Unit) ↔
        (∃ value, first = .ok value) ∧ ∃ value, second = .ok value := by
    rw [bind_eq_ok]
    constructor
    · rintro ⟨value, done, rest⟩
      exact ⟨⟨value, done⟩, found_eq_ok.mp rest⟩
    · rintro ⟨⟨value, done⟩, rest⟩
      exact ⟨value, done, found_eq_ok.mpr rest⟩
  cases constant
  case classRef | moduleRef | packageRef | string | methodType => exact found_eq_ok.trans has_utf8.symm
  case field | method | interfaceMethod =>
    exact both.trans (and_congr has_classRef.symm has_nameAndType.symm)
  case nameAndType => exact both.trans (and_congr has_utf8.symm has_utf8.symm)
  case methodHandle => exact checkHandle_eq_ok
  case dynamic | invokeDynamic => exact found_eq_ok.trans has_nameAndType.symm
  all_goals exact ⟨fun _ => trivial, fun _ => rfl⟩

/-- **Format checking** succeeds exactly when every constant in use refers to constants of the right
kinds. -/
theorem check_eq_ok (small : pool.size ≤ maxSlots) :
    pool.check = .ok () ↔ ∀ index constant, pool.get index = .ok constant → pool.RefersIn constant := by
  rw [check, forM_eq_ok]
  constructor
  · intro checked index constant found
    have done := checked (index, constant) ((mem_entries small).mpr found)
    exact checkConstant_eq_ok.mp (mapError_eq_ok.mp done)
  · rintro refers ⟨index, constant⟩ member
    have found := (mem_entries small).mp member
    exact mapError_eq_ok.mpr (checkConstant_eq_ok.mpr (refers index constant found))

end Pool

end JarRename
