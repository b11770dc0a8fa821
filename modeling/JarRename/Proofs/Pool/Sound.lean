import JarRename.Proofs.Pool.Growth

/-!
**Sound pools.**

A pool is sound if it has no more slots than can be counted, if its slots are laid out and if format checking accepts
it. In a sound pool every index leads to texts over constants of the right kinds, so a lookup can only fail at a text
that cannot be decoded. Names put behind a sound pool leave it sound.

* `Pool.Sound`, `Pool.Sound.extended`: the invariant, and that new names keep it;
* `Pool.Laid.reserved_iff`: where upper halves stand;
* `Constant.references`, `Pool.Reaches`: the indices in a constant, and all that follow from them;
* `Pool.FailsAtText`: outcomes that fail only at a text that cannot be decoded;
* `Pool.Sound.className`, `Pool.Sound.nameAndType`, `Pool.Sound.memberRef`, `Pool.Sound.handleTarget`: the lookups.
-/

namespace JarRename

/-- The indices in a constant. -/
def Constant.references : Constant → List Index
  | classRef name | moduleRef name | packageRef name | string name | methodType name => [name]
  | field owner pair | method owner pair | interfaceMethod owner pair => [owner, pair]
  | nameAndType name descriptor => [name, descriptor]
  | methodHandle _ target => [target]
  | dynamic _ pair | invokeDynamic _ pair => [pair]
  | utf8 _ | integer _ | float _ | long _ | double _ | reserved => []

namespace Pool

variable {pool result : Pool} {index next last : Index} {constant : Constant}

/-! ### The invariant -/

/-- What reading a class file makes sure of its pool. -/
structure Sound (pool : Pool) : Prop where
  small : pool.size ≤ maxSlots
  laid : Laid pool.slots.toList
  checked : pool.check = .ok ()

/-- Every constant in use refers to constants of the right kinds. -/
theorem Sound.refersIn (sound : pool.Sound) (found : pool.get index = .ok constant) : pool.RefersIn constant :=
  (check_eq_ok sound.small).mp sound.checked index constant found

/-- A grown pool is sound if the constants that stood in it before refer to constants of the right kinds. -/
theorem Sound.grown (sound : pool.Sound) (grown : Grown pool result)
    (refers : ∀ index before later, pool.get index = .ok before → pool.RefersIn before →
      result.slot? index = some later → before.Alike later → result.RefersIn later) : result.Sound where
  small := grown.small sound.small
  laid := grown.laid sound.laid
  checked := by
    refine (check_eq_ok (grown.small sound.small)).mpr fun index constant found => ?_
    rcases grown.get_cases found with ⟨before, old, alike⟩ | ⟨-, new⟩
    · exact refers index before constant old (sound.refersIn old) (get_eq_ok.mp found).1 alike
    · exact new

/-- **New names** leave a pool sound. -/
theorem Sound.extended (sound : pool.Sound) (extended : Extended pool result) : result.Sound := by
  refine sound.grown extended.toGrown fun index before later found refers slot _ => ?_
  rw [extended.slot_same (get_eq_ok.mp found).1] at slot
  cases slot
  exact extended.refersIn refers

/-- **Upper halves** stand behind constants of two slots, and nowhere else. -/
theorem Laid.reserved_iff {slots : List Constant} (laid : Laid slots) (position : Nat) :
    slots[position]? = some .reserved ↔
      ∃ before constant, position = before + 1 ∧ slots[before]? = some constant ∧ constant.isWide = true := by
  induction laid generalizing position with
  | nil => simp
  | @narrow constant rest narrow used laid ih =>
    cases position with
    | zero => simp [used]
    | succ position =>
      rw [List.getElem?_cons_succ, ih]
      constructor
      · rintro ⟨before, wide, rfl, found, isWide⟩
        exact ⟨before + 1, wide, rfl, found, isWide⟩
      · rintro ⟨before, wide, same, found, isWide⟩
        obtain rfl : position = before := Nat.succ.inj same
        cases position with
        | zero =>
          cases found
          cases narrow.symm.trans isWide
        | succ position => exact ⟨position, wide, rfl, found, isWide⟩
  | @wide constant rest wide laid ih =>
    match position with
    | 0 =>
      have used : constant ≠ .reserved := by
        rintro rfl
        cases wide
      simp [used]
    | 1 => simp [wide]
    | position + 2 =>
      rw [List.getElem?_cons_succ, List.getElem?_cons_succ, ih]
      constructor
      · rintro ⟨before, other, rfl, found, isWide⟩
        exact ⟨before + 2, other, rfl, found, isWide⟩
      · rintro ⟨before, other, same, found, isWide⟩
        obtain rfl : position + 1 = before := Nat.succ.inj same
        cases position with
        | zero =>
          cases found
          cases isWide
        | succ position => exact ⟨position, other, rfl, found, isWide⟩

/-! ### Lookups -/

/-- An index leads to another over the constants in between. -/
inductive Reaches (pool : Pool) : Index → Index → Prop
  | here (index : Index) : Reaches pool index index
  | through {index next last : Index} {constant : Constant} (slot : pool.slot? index = some constant)
      (member : next ∈ constant.references) (rest : Reaches pool next last) : Reaches pool index last

/-- **An outcome fails only at a text that cannot be decoded**, and that the index leads to. -/
def FailsAtText {α : Type} (pool : Pool) (index : Index) (outcome : Except Fault α) : Prop :=
  ∀ cause, outcome = .error cause →
    ∃ text bytes, pool.Reaches index text ∧ pool.slot? text = some (.utf8 bytes) ∧ Text.decode bytes = .error cause

namespace FailsAtText

variable {α β : Type}

theorem pure (pool : Pool) (index : Index) (value : α) : pool.FailsAtText index (Pure.pure value) :=
  nofun

theorem bind {first : Except Fault α} {after : α → Except Fault β} (one : pool.FailsAtText index first)
    (two : ∀ value, first = .ok value → pool.FailsAtText index (after value)) :
    pool.FailsAtText index (first >>= after) := by
  cases found : first with
  | error cause =>
    rw [found] at one
    exact fun other failed => one other (by cases failed; rfl)
  | ok value => exact two value found

theorem through {outcome : Except Fault α} (slot : pool.slot? index = some constant)
    (member : next ∈ constant.references) (fails : pool.FailsAtText next outcome) :
    pool.FailsAtText index outcome := by
  intro cause failed
  obtain ⟨text, bytes, reaches, found, undecoded⟩ := fails cause failed
  exact ⟨text, bytes, .through slot member reaches, found, undecoded⟩

end FailsAtText

/-- A text is found, and may fail to be decoded. -/
theorem failsAtText_utf8 (has : pool.Has .utf8 index) : pool.FailsAtText index (pool.utf8 index) := by
  obtain ⟨bytes, found⟩ := has_utf8.mp has
  intro cause failed
  rw [utf8, found, ok_bind] at failed
  exact ⟨index, bytes, .here index, utf8Bytes_eq_ok.mp found, failed⟩

/-- The kinds of handle targets are those of members. -/
theorem member_of_handleAccepts? {handle : UInt8} {kind : Kind} (accepts : handleAccepts? handle kind = some true) :
    ∃ sort : MemberKind, sort.kind = kind := by
  unfold handleAccepts? at accepts
  dsimp only at accepts
  split_ifs at accepts
  all_goals simp only [Option.some.injEq, Bool.or_eq_true, decide_eq_true_eq] at accepts
  · exact ⟨.field, accepts.symm⟩
  · exact ⟨.method, accepts.symm⟩
  · rcases accepts with rfl | rfl
    · exact ⟨.method, rfl⟩
    · exact ⟨.interfaceMethod, rfl⟩
  · exact ⟨.interfaceMethod, accepts.symm⟩

namespace Sound

/-- The name of a class. -/
theorem className (sound : pool.Sound) (has : pool.Has .classRef index) :
    pool.FailsAtText index (pool.className index) := by
  obtain ⟨name, found⟩ := has_classRef.mp has
  have slot := classRef_eq_ok.mp found
  have hasName : pool.Has .utf8 name := sound.refersIn (get_eq_ok.mpr ⟨slot, nofun⟩)
  rw [Pool.className, found, ok_bind]
  exact .through slot List.mem_cons_self (failsAtText_utf8 hasName)

/-- A name and type. -/
theorem nameAndType (sound : pool.Sound) (has : pool.Has .nameAndType index) :
    pool.FailsAtText index (pool.nameAndType index) := by
  obtain ⟨⟨name, descriptor⟩, found⟩ := has_nameAndType.mp has
  have slot := nameAndTypeRef_eq_ok.mp found
  obtain ⟨hasName, hasDescriptor⟩ : pool.Has .utf8 name ∧ pool.Has .utf8 descriptor :=
    sound.refersIn (get_eq_ok.mpr ⟨slot, nofun⟩)
  have first := FailsAtText.through slot List.mem_cons_self (failsAtText_utf8 hasName)
  have second := FailsAtText.through slot (List.mem_cons_of_mem _ List.mem_cons_self) (failsAtText_utf8 hasDescriptor)
  rw [Pool.nameAndType, found, ok_bind]
  exact first.bind fun _ _ => second.bind fun _ _ => .pure _ _ _

/-- A member with its owner, its name and its descriptor. -/
theorem memberRef (sound : pool.Sound) {kind : MemberKind} (has : pool.Has kind.kind index) :
    pool.FailsAtText index (pool.memberRef index) := by
  obtain ⟨constant, found, same⟩ := has
  obtain ⟨owner, pair, rfl⟩ : ∃ owner pair, constant = kind.constant owner pair := by
    cases kind <;> cases constant <;> cases same <;> exact ⟨_, _, rfl⟩
  have slot := (get_eq_ok.mp found).1
  have references : (kind.constant owner pair).references = [owner, pair] := by cases kind <;> rfl
  obtain ⟨hasOwner, hasPair⟩ : pool.Has .classRef owner ∧ pool.Has .nameAndType pair := by
    have refers := sound.refersIn found
    cases kind <;> exact refers
  have ownerMember : owner ∈ (kind.constant owner pair).references := by simp [references]
  have pairMember : pair ∈ (kind.constant owner pair).references := by simp [references]
  have first := FailsAtText.through slot pairMember (sound.nameAndType hasPair)
  have second := FailsAtText.through slot ownerMember (sound.className hasOwner)
  rw [Pool.memberRef, member_eq_ok.mpr slot, ok_bind]
  exact first.bind fun _ _ => second.bind fun _ _ => .pure _ _ _

/-- The target of a method handle. -/
theorem handleTarget (sound : pool.Sound) (has : pool.Has .methodHandle index) :
    pool.FailsAtText index (do
      let (_, target) ← pool.methodHandle index
      pool.memberRef target) := by
  obtain ⟨constant, found, same⟩ := has
  obtain ⟨handle, target, rfl⟩ : ∃ handle target, constant = .methodHandle handle target := by
    cases constant <;> cases same
    exact ⟨_, _, rfl⟩
  have slot := (get_eq_ok.mp found).1
  obtain ⟨member, memberFound, accepts⟩ := sound.refersIn found
  obtain ⟨kind, isMember⟩ := member_of_handleAccepts? accepts
  rw [methodHandle_eq_ok.mpr slot, ok_bind]
  exact .through slot List.mem_cons_self (sound.memberRef ⟨member, memberFound, isMember.symm⟩)

end Sound

end Pool

end JarRename
