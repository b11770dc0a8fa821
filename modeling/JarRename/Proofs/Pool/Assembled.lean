import JarRename.Proofs.Pool.Growth

/-!
**Pools that are put together.**

A pool is put together by requests for constants. A request finds its constant or puts it behind the pool, after the
constants that it is made of, and one that fails may leave some of these behind. Slots that are filled stay as they
are, so an index stands for the same constant ever after.

* `Pool.Supports`, `Pool.Assembled`: the invariant of pools that are put together;
* `Pool.Builds`: a pool that is put together, before and after requests;
* `ConstantRequest`, `ConstantRequest.leaves_edit`: all requests, and what the index stands for that they give.
-/

namespace JarRename

/-- A constant that takes one slot and is no upper half. -/
def Constant.IsNarrow (constant : Constant) : Prop :=
  constant.isWide = false ∧ constant ≠ .reserved

namespace Pool

variable {before middle after pool : Pool} {constant : Constant} {handles : UInt8 → Index → Prop}

/-! ### Pools under construction -/

/-- The constants that a constant refers to have the right kinds. A method handle may be taken on trust: whether its
kind allows its target is only checked when a class is read. -/
def Supports (handles : UInt8 → Index → Prop) (pool : Pool) (constant : Constant) : Prop :=
  pool.RefersIn constant ∨ ∃ kind target, constant = .methodHandle kind target ∧ handles kind target

theorem Supports.keep (keeps : Keeps before after) (supports : Supports handles before constant) :
    Supports handles after constant :=
  supports.imp_left keeps.refersIn

/-- **A pool that is put together** holds different constants of one slot and all that they refer to. -/
structure Assembled (handles : UInt8 → Index → Prop) (pool : Pool) : Prop where
  small : pool.size ≤ maxSlots
  narrow : ∀ constant ∈ pool.slots, constant.IsNarrow
  distinct : pool.slots.toList.Nodup
  supports : ∀ constant ∈ pool.slots, Supports handles pool constant

theorem assembled_empty (handles : UInt8 → Index → Prop) : Assembled handles {} where
  small := Nat.zero_le _
  narrow := nofun
  distinct := .nil
  supports := nofun

/-- A constant more, made of constants of the pool. -/
theorem Assembled.push (assembled : Assembled handles pool) (fits : pool.fits constant = true)
    (missing : constant ∉ pool.slots) (narrow : constant.IsNarrow) (supports : Supports handles pool constant) :
    Assembled handles (pool.push constant) := by
  have keeps : Keeps pool (pool.push constant) := (Continues.push pool constant).keeps
  have member (other : Constant) : other ∈ (pool.push constant).slots ↔ other ∈ pool.slots ∨ other = constant := by
    rw [slots_push narrow.1, Array.mem_push]
  constructor
  case small =>
    rw [size_push]
    exact fits_iff.mp fits
  case narrow =>
    intro other inside
    rcases (member other).mp inside with old | rfl
    · exact assembled.narrow other old
    · exact narrow
  case distinct =>
    rw [slots_push narrow.1, Array.toList_push]
    refine List.nodup_append.mpr
      ⟨assembled.distinct, List.pairwise_singleton _ constant, fun old inside other new => ?_⟩
    rintro rfl
    rw [List.mem_singleton.mp new] at inside
    exact missing (Array.mem_toList_iff.mp inside)
  case supports =>
    intro other inside
    rcases (member other).mp inside with old | rfl
    · exact (assembled.supports other old).keep keeps
    · exact supports.keep keeps

/-- Constants of one slot are laid out. -/
theorem laid_of_narrow {slots : List Constant} (narrow : ∀ constant ∈ slots, constant.IsNarrow) : Laid slots := by
  induction slots with
  | nil => exact .nil
  | cons constant rest ih =>
    obtain ⟨⟨one, used⟩, others⟩ := List.forall_mem_cons.mp narrow
    exact .narrow one used (ih others)

theorem Assembled.laid (assembled : Assembled handles pool) : Laid pool.slots.toList :=
  laid_of_narrow fun constant member => assembled.narrow constant (Array.mem_toList_iff.mp member)

/-- A pool that is put together passes its format checking, if its method handles do. -/
theorem Assembled.check (assembled : Assembled (fun kind target => pool.checkHandle kind target = .ok ()) pool) :
    pool.check = .ok () := by
  refine (check_eq_ok assembled.small).mpr fun index constant found => ?_
  obtain ⟨-, slot⟩ := slot?_eq_some.mp (get_eq_ok.mp found).1
  rcases assembled.supports constant (Array.mem_of_getElem? slot) with refers | ⟨kind, target, rfl, accepted⟩
  · exact refers
  · exact checkHandle_eq_ok.mp accepted

/-! ### Requests -/

/-- A pool before and after requests: what it held stays, and it is put together still. -/
structure Builds (handles : UInt8 → Index → Prop) (before after : Pool) : Prop where
  continues : Continues before after
  assembled : Assembled handles after

theorem Builds.refl (assembled : Assembled handles pool) : Builds handles pool pool where
  continues := .refl pool
  assembled := assembled

theorem Builds.trans (first : Builds handles before middle) (second : Builds handles middle after) :
    Builds handles before after where
  continues := first.continues.trans second.continues
  assembled := second.assembled

instance : Trans (Builds handles) (Builds handles) (Builds handles) := ⟨Builds.trans⟩

theorem Builds.keeps (builds : Builds handles before after) : Keeps before after :=
  builds.continues.keeps

/-- **A constant is asked for.** -/
theorem leaves_intern (assembled : Assembled handles pool) (constant : Constant) (narrow : constant.IsNarrow)
    (supports : Supports handles pool constant) :
    Leaves (Builds handles pool) (fun index after => after.slot? index = some constant) (intern constant pool) := by
  cases done : intern constant pool with
  | error cause after =>
    rw [(intern_eq_error done).2]
    exact .refl assembled
  | ok index after =>
    obtain ⟨slot, same | ⟨fits, missing, same⟩⟩ := intern_eq_ok assembled.small done
    all_goals
      subst same
    · exact ⟨.refl assembled, slot⟩
    · exact ⟨⟨.push pool constant, assembled.push fits missing narrow supports⟩, slot⟩

theorem leaves_internText (assembled : Assembled handles pool) (text : String) :
    Leaves (Builds handles pool) (fun index after => after.utf8 index = .ok text) (internText text pool) := by
  apply (leaves_intern assembled (.utf8 (Text.encode text)) ⟨rfl, nofun⟩ (.inl trivial)).mono
  intro index after _ slot
  exact utf8_eq_ok.mpr ⟨Text.encode text, slot, Text.decode_encode text⟩

/-- A constant is asked for that points at a text. -/
theorem leaves_ofText (assembled : Assembled handles pool) (text : String) (make : Index → Constant)
    (narrow : ∀ index, (make index).IsNarrow)
    (refers : ∀ (pool : Pool) index, pool.Has .utf8 index → pool.RefersIn (make index)) :
    Leaves (Builds handles pool)
      (fun index after => ∃ target, after.slot? index = some (make target) ∧ after.utf8 target = .ok text)
      ((internText text >>= fun target => intern (make target)) pool) := by
  apply Leaves.bind (leaves_internText assembled text)
  intro target middle builds found
  have known : middle.RefersIn (make target) := refers middle target (has_of_utf8 found)
  apply (leaves_intern builds.assembled (make target) (narrow target) (.inl known)).mono
  intro index after later slot
  exact ⟨target, slot, later.keeps.utf8 found⟩

theorem leaves_internClass (assembled : Assembled handles pool) (name : String) :
    Leaves (Builds handles pool) (fun index after => after.className index = .ok name) (internClass name pool) := by
  apply (leaves_ofText assembled name .classRef (fun _ => ⟨rfl, nofun⟩) fun _ _ has => has).mono
  intro index after _ found
  exact className_eq_ok.mpr found

theorem leaves_internNameAndType (assembled : Assembled handles pool) (name descriptor : String) :
    Leaves (Builds handles pool) (fun index after => after.nameAndType index = .ok (name, descriptor))
      (internNameAndType name descriptor pool) := by
  apply Leaves.bind (leaves_internText assembled name)
  intro first middle builds nameFound
  apply Leaves.bind (leaves_internText builds.assembled descriptor)
  intro second later builds descriptorFound
  have nameStays := builds.keeps.utf8 nameFound
  have refers : later.RefersIn (.nameAndType first second) := ⟨has_of_utf8 nameStays, has_of_utf8 descriptorFound⟩
  apply (leaves_intern builds.assembled (.nameAndType first second) ⟨rfl, nofun⟩ (.inl refers)).mono
  intro index after last slot
  exact nameAndType_eq_ok.mpr
    ⟨first, second, slot, last.keeps.utf8 nameStays, last.keeps.utf8 descriptorFound⟩

theorem leaves_internMember (assembled : Assembled handles pool) (kind : MemberKind)
    (owner name descriptor : String) :
    Leaves (Builds handles pool) (fun index after => after.memberRef index = .ok { kind, owner, name, descriptor })
      (internMember kind owner name descriptor pool) := by
  apply Leaves.bind (leaves_internClass assembled owner)
  intro first middle builds ownerFound
  apply Leaves.bind (leaves_internNameAndType builds.assembled name descriptor)
  intro second later builds pairFound
  -- the name of the owner stays while name and type are put behind it
  have ownerStays := builds.continues.className ownerFound
  have refers : later.Has .classRef first ∧ later.Has .nameAndType second :=
    ⟨has_of_className ownerStays, has_of_nameAndType pairFound⟩
  have resolves (index : Index) (after : Pool) (last : Builds handles later after)
      (slot : after.slot? index = some (kind.constant first second)) :
      after.memberRef index = .ok { kind, owner, name, descriptor } :=
    memberRef_eq_ok.mpr ⟨first, second, slot, last.keeps.nameAndType pairFound, last.continues.className ownerStays⟩
  cases kind with
  | field => exact (leaves_intern builds.assembled (.field first second) ⟨rfl, nofun⟩ (.inl refers)).mono resolves
  | method => exact (leaves_intern builds.assembled (.method first second) ⟨rfl, nofun⟩ (.inl refers)).mono resolves
  | interfaceMethod =>
    exact (leaves_intern builds.assembled (.interfaceMethod first second) ⟨rfl, nofun⟩ (.inl refers)).mono resolves

end Pool

/-! ### All requests -/

/-- What a pool can be asked for. -/
inductive ConstantRequest where
  | text (value : String)
  | classRef (name : String)
  | string (value : String)
  | nameAndType (name descriptor : String)
  | member (kind : MemberKind) (owner name descriptor : String)
  | methodType (descriptor : String)
  | methodHandle (kind : UInt8) (target : Index)
  | invokeDynamic (bootstrap : UInt16) (name descriptor : String)
  deriving DecidableEq

namespace ConstantRequest

/-- The request to a pool. -/
def edit : ConstantRequest → PoolEdit Index
  | text value => Pool.internText value
  | classRef name => Pool.internClass name
  | string value => Pool.internString value
  | nameAndType name descriptor => Pool.internNameAndType name descriptor
  | member kind owner name descriptor => Pool.internMember kind owner name descriptor
  | methodType descriptor => Pool.internMethodType descriptor
  | methodHandle kind target => Pool.intern (.methodHandle kind target)
  | invokeDynamic bootstrap name descriptor => Pool.internInvokeDynamic bootstrap name descriptor

/-- The index stands for what was asked for. -/
def Resolves (pool : Pool) (index : Index) : ConstantRequest → Prop
  | text value => pool.utf8 index = .ok value
  | classRef name => pool.className index = .ok name
  | string value => ∃ target, pool.slot? index = some (.string target) ∧ pool.utf8 target = .ok value
  | nameAndType name descriptor => pool.nameAndType index = .ok (name, descriptor)
  | member kind owner name descriptor => pool.memberRef index = .ok { kind, owner, name, descriptor }
  | methodType descriptor => ∃ target, pool.slot? index = some (.methodType target) ∧ pool.utf8 target = .ok descriptor
  | methodHandle kind target => pool.slot? index = some (.methodHandle kind target)
  | invokeDynamic bootstrap name descriptor =>
    ∃ pair, pool.slot? index = some (.invokeDynamic bootstrap pair) ∧ pool.nameAndType pair = .ok (name, descriptor)

/-- A method handle of a request is one of those that are trusted. -/
def Trusted (handles : UInt8 → Index → Prop) : ConstantRequest → Prop
  | methodHandle kind target => handles kind target
  | _ => True

/-- **A request gives an index of what was asked for**, unless the pool is full. -/
theorem leaves_edit {handles : UInt8 → Index → Prop} {pool : Pool} (assembled : pool.Assembled handles)
    (request : ConstantRequest) (trusted : request.Trusted handles) :
    Leaves (Pool.Builds handles pool) (fun index after => request.Resolves after index) (request.edit pool) := by
  cases request with
  | text value => exact Pool.leaves_internText assembled value
  | classRef name => exact Pool.leaves_internClass assembled name
  | string value => exact Pool.leaves_ofText assembled value .string (fun _ => ⟨rfl, nofun⟩) fun _ _ has => has
  | nameAndType name descriptor => exact Pool.leaves_internNameAndType assembled name descriptor
  | member kind owner name descriptor => exact Pool.leaves_internMember assembled kind owner name descriptor
  | methodType descriptor =>
    exact Pool.leaves_ofText assembled descriptor .methodType (fun _ => ⟨rfl, nofun⟩) fun _ _ has => has
  | methodHandle kind target =>
    exact Pool.leaves_intern assembled (.methodHandle kind target) ⟨rfl, nofun⟩ (.inr ⟨kind, target, rfl, trusted⟩)
  | invokeDynamic bootstrap name descriptor =>
    apply Leaves.bind (Pool.leaves_internNameAndType assembled name descriptor)
    intro pair middle builds found
    have refers : middle.RefersIn (.invokeDynamic bootstrap pair) := Pool.has_of_nameAndType found
    apply (Pool.leaves_intern builds.assembled (.invokeDynamic bootstrap pair) ⟨rfl, nofun⟩ (.inl refers)).mono
    intro index after later slot
    exact ⟨pair, slot, later.keeps.nameAndType found⟩

end ConstantRequest

end JarRename
