import JarRename.Renaming
import JarRename.Proofs.Pool.Format
import JarRename.Proofs.Text.ModifiedUtf8

/-!
**How a pool grows while a class is renamed.**

New names are texts and name-and-types put after the last slot, each of them once; a constant that is
renamed is pointed at its new name and keeps everything else. Both steps leave every text and every
name-and-type where it is, so an index of one stands for the same name ever after.

* `Constant.Alike`, `Constant.Alike.exists_repoint`: constants that agree except for the name they point at;
* `Pool.Grown`: a pool before and after such steps;
* `Pool.Keeps`, `Pool.Grown.laid`, `Pool.Grown.entries`: what the steps keep;
* `Pool.Continues`: slots that stay as they are;
* `Pool.insert_eq_ok`, `Pool.intern_eq_ok`: one constant more;
* `Pool.Extended`, `Pool.extended_of_intern`, `Pool.grown_repoint`: the two steps;
* `Pool.Names`, `Replacement.intern_eq_ok`: the index of a replacement stands for it.
-/

namespace JarRename

/-! ### Constants and the names they point at -/

namespace Constant

/-- Texts and name-and-types, the constants that new names are made of. -/
def IsName : Constant → Prop
  | utf8 _ | nameAndType _ _ => True
  | _ => False

/-- Whether a constant points at a name that a renaming can change: that of a class, a method type, a
member, a computed constant or a call site. -/
def isPointed : Constant → Bool
  | classRef _ | methodType _ | field _ _ | method _ _ | interfaceMethod _ _ | dynamic _ _
  | invokeDynamic _ _ => true
  | _ => false

/-- The constant with the index of its name left out. -/
def unnamed : Constant → Constant
  | classRef _ => classRef 0
  | methodType _ => methodType 0
  | field owner _ => field owner 0
  | method owner _ => method owner 0
  | interfaceMethod owner _ => interfaceMethod owner 0
  | dynamic bootstrap _ => dynamic bootstrap 0
  | invokeDynamic bootstrap _ => invokeDynamic bootstrap 0
  | other => other

/-- The same constant, except that a class may have another name, a method type another descriptor, and a
member, a computed constant or a call site another name and type. -/
def Alike (first second : Constant) : Prop :=
  first.unnamed = second.unnamed

theorem kind_unnamed (constant : Constant) : constant.unnamed.kind = constant.kind := by
  cases constant <;> rfl

theorem isPointed_unnamed (constant : Constant) : constant.unnamed.isPointed = constant.isPointed := by
  cases constant <;> rfl

theorem unnamed_of_not_isPointed {constant : Constant} (fixed : constant.isPointed = false) :
    constant.unnamed = constant := by
  cases constant <;> first | rfl | cases fixed

theorem alike_repoint (constant : Constant) (target : Index) :
    constant.Alike (constant.repoint target) := by
  cases constant <;> rfl

namespace Alike

variable {first second : Constant}

theorem kind (alike : first.Alike second) : second.kind = first.kind := by
  rw [← kind_unnamed first, alike, kind_unnamed]

/-- A constant that points at no name is alike only to itself. -/
theorem eq (alike : first.Alike second) (fixed : first.isPointed = false) : second = first := by
  have other : second.isPointed = false := by
    rw [← isPointed_unnamed, ← alike, isPointed_unnamed, fixed]
  rw [← unnamed_of_not_isPointed fixed, alike, unnamed_of_not_isPointed other]

/-- Alike constants differ by the index of the name only. -/
theorem exists_repoint (alike : first.Alike second) : ∃ target, second = first.repoint target := by
  cases first
  case classRef | methodType | field | method | interfaceMethod | dynamic | invokeDynamic =>
    cases second <;> cases alike
    exact ⟨_, rfl⟩
  all_goals exact ⟨0, alike.eq rfl⟩

end Alike

theorem IsName.not_isPointed {constant : Constant} (name : constant.IsName) :
    constant.isPointed = false := by
  cases constant <;> first | rfl | cases name

/-- Every constant takes a slot. -/
theorem slots_pos (constant : Constant) : 0 < constant.slots := by
  unfold slots
  split <;> decide

theorem isWide_eq_of_kind {first second : Constant} (same : second.kind = first.kind) :
    second.isWide = first.isWide := by
  cases first <;> cases second <;> first | rfl | cases same

theorem eq_reserved_of_kind {constant : Constant} (same : constant.kind = .reserved) :
    constant = .reserved := by
  cases constant <;> first | rfl | cases same

end Constant

namespace Pool

/-! ### Growing -/

/-- Every slot holds a constant alike to the one before. -/
structure Keeps (before after : Pool) : Prop where
  kept : ∀ (position : Nat) (constant : Constant), before.slots[position]? = some constant →
    ∃ later, after.slots[position]? = some later ∧ constant.Alike later

/-- The pool after new names were put behind it and constants were pointed at them. -/
structure Grown (before after : Pool) : Prop extends Keeps before after where
  /-- Every new slot holds a name, made of texts of the pool. -/
  added : ∀ (position : Nat) (constant : Constant), before.size ≤ position →
    after.slots[position]? = some constant → constant.IsName ∧ after.RefersIn constant
  /-- The constant in a new slot is in no other slot. -/
  fresh : ∀ (first second : Nat) (constant : Constant), before.size ≤ first →
    after.slots[first]? = some constant → after.slots[second]? = some constant → second = first
  small : before.size ≤ maxSlots → after.size ≤ maxSlots

namespace Keeps

variable {before after : Pool} {index : Index}

/-- An index points at an alike constant. -/
theorem slot (keeps : Keeps before after) {constant : Constant} (found : before.slot? index = some constant) :
    ∃ later, after.slot? index = some later ∧ constant.Alike later := by
  obtain ⟨nonzero, found⟩ := slot?_eq_some.mp found
  obtain ⟨later, kept, alike⟩ := keeps.kept _ _ found
  exact ⟨later, slot?_eq_some.mpr ⟨nonzero, kept⟩, alike⟩

/-- An index of a constant without a name points at that constant. -/
theorem slot_eq (keeps : Keeps before after) {constant : Constant}
    (found : before.slot? index = some constant) (fixed : constant.isPointed = false) :
    after.slot? index = some constant := by
  obtain ⟨later, kept, alike⟩ := keeps.slot found
  rw [kept, alike.eq fixed]

theorem get (keeps : Keeps before after) {constant : Constant} (found : before.get index = .ok constant) :
    ∃ later, after.get index = .ok later ∧ constant.Alike later := by
  obtain ⟨found, used⟩ := get_eq_ok.mp found
  obtain ⟨later, kept, alike⟩ := keeps.slot found
  refine ⟨later, get_eq_ok.mpr ⟨kept, ?_⟩, alike⟩
  rintro rfl
  exact used (Constant.eq_reserved_of_kind alike.kind.symm)

theorem has (keeps : Keeps before after) {kind : Kind} (has : before.Has kind index) :
    after.Has kind index := by
  obtain ⟨constant, found, same⟩ := has
  obtain ⟨later, kept, alike⟩ := keeps.get found
  exact ⟨later, kept, alike.kind.trans same⟩

theorem refersIn (keeps : Keeps before after) {constant : Constant} (refers : before.RefersIn constant) :
    after.RefersIn constant := by
  cases constant
  case classRef | moduleRef | packageRef | string | methodType | dynamic | invokeDynamic =>
    exact keeps.has refers
  case field | method | interfaceMethod | nameAndType =>
    exact ⟨keeps.has refers.1, keeps.has refers.2⟩
  case methodHandle handle target =>
    obtain ⟨constant, found, accepts⟩ := refers
    obtain ⟨later, kept, alike⟩ := keeps.get found
    exact ⟨later, kept, by rw [alike.kind, accepts]⟩
  all_goals trivial

theorem utf8Bytes (keeps : Keeps before after) {bytes : Bytes} (found : before.utf8Bytes index = .ok bytes) :
    after.utf8Bytes index = .ok bytes :=
  utf8Bytes_eq_ok.mpr (keeps.slot_eq (utf8Bytes_eq_ok.mp found) rfl)

theorem utf8 (keeps : Keeps before after) {text : String} (found : before.utf8 index = .ok text) :
    after.utf8 index = .ok text := by
  obtain ⟨bytes, found, decoded⟩ := utf8_eq_ok.mp found
  exact utf8_eq_ok.mpr ⟨bytes, keeps.slot_eq found rfl, decoded⟩

theorem nameAndType (keeps : Keeps before after) {pair : String × String}
    (found : before.nameAndType index = .ok pair) : after.nameAndType index = .ok pair := by
  obtain ⟨name, descriptor⟩ := pair
  obtain ⟨first, second, found, nameFound, descriptorFound⟩ := nameAndType_eq_ok.mp found
  exact nameAndType_eq_ok.mpr
    ⟨first, second, keeps.slot_eq found rfl, keeps.utf8 nameFound, keeps.utf8 descriptorFound⟩

theorem size_le (keeps : Keeps before after) : before.size ≤ after.size := by
  refine Nat.le_of_not_lt fun shorter => ?_
  have inside : after.size < before.slots.size := shorter
  obtain ⟨later, found, -⟩ := keeps.kept after.size before.slots[after.size] (Array.getElem?_eq_getElem inside)
  exact absurd (Array.getElem?_eq_some_iff.mp found).1 (Nat.lt_irrefl _)

/-- A name in a slot of a grown pool was in that slot before, if the slot was there. -/
theorem name_before (keeps : Keeps before after) {position : Nat} {constant : Constant}
    (inside : position < before.size) (found : after.slots[position]? = some constant)
    (fixed : constant.isPointed = false) : before.slots[position]? = some constant := by
  have old : before.slots[position]? = some before.slots[position] := Array.getElem?_eq_getElem inside
  obtain ⟨later, kept, alike⟩ := keeps.kept position _ old
  obtain rfl : constant = later := Option.some.inj (found.symm.trans kept)
  rw [old, Constant.Alike.eq alike.symm fixed]

end Keeps

namespace Grown

variable {before middle after : Pool}

theorem refl (pool : Pool) : Grown pool pool where
  kept := fun _ constant found => ⟨constant, found, rfl⟩
  added := fun _ _ outside found =>
    absurd (Array.getElem?_eq_some_iff.mp found).1 (Nat.not_lt.mpr outside)
  fresh := fun _ _ _ outside found _ =>
    absurd (Array.getElem?_eq_some_iff.mp found).1 (Nat.not_lt.mpr outside)
  small := id

theorem trans (first : Grown before middle) (second : Grown middle after) : Grown before after where
  kept := by
    intro position constant found
    obtain ⟨between, found, alike⟩ := first.kept position constant found
    obtain ⟨later, found, alikeLater⟩ := second.kept position between found
    exact ⟨later, found, alike.trans alikeLater⟩
  added := by
    intro position constant outside found
    by_cases inside : position < middle.size
    · -- the slot is new in the middle, where it holds a name, and names stay
      have old : middle.slots[position]? = some middle.slots[position] := Array.getElem?_eq_getElem inside
      obtain ⟨name, refers⟩ := first.added position _ outside old
      obtain ⟨later, kept, alike⟩ := second.kept position _ old
      obtain rfl : constant = later := Option.some.inj (found.symm.trans kept)
      rw [alike.eq name.not_isPointed]
      exact ⟨name, second.refersIn refers⟩
    · exact second.added position constant (Nat.le_of_not_lt inside) found
  fresh := by
    intro one other constant outside found again
    by_cases inside : one < middle.size
    · by_cases otherInside : other < middle.size
      · have old : middle.slots[one]? = some middle.slots[one] := Array.getElem?_eq_getElem inside
        obtain ⟨name, -⟩ := first.added one _ outside old
        obtain ⟨later, kept, alike⟩ := second.kept one _ old
        obtain rfl : constant = later := Option.some.inj (found.symm.trans kept)
        have fixed : constant.isPointed = false := by
          rw [alike.eq name.not_isPointed]
          exact name.not_isPointed
        exact first.fresh one other constant outside (second.name_before inside found fixed)
          (second.name_before otherInside again fixed)
      · exact (second.fresh other one constant (Nat.le_of_not_lt otherInside) again found).symm
    · exact second.fresh one other constant (Nat.le_of_not_lt inside) found again
  small := second.small ∘ first.small

/-- A constant in use was in use before, or is a new name. -/
theorem get_cases (grown : Grown before after) {index : Index} {constant : Constant}
    (found : after.get index = .ok constant) :
    (∃ old, before.get index = .ok old ∧ old.Alike constant) ∨ constant.IsName ∧ after.RefersIn constant := by
  obtain ⟨slot, used⟩ := get_eq_ok.mp found
  obtain ⟨nonzero, inSlot⟩ := slot?_eq_some.mp slot
  by_cases inside : index.toNat - 1 < before.size
  · have filled : before.slots[index.toNat - 1]? = some before.slots[index.toNat - 1] :=
      Array.getElem?_eq_getElem inside
    generalize before.slots[index.toNat - 1] = old at filled
    obtain ⟨later, kept, alike⟩ := grown.kept _ _ filled
    obtain rfl : constant = later := Option.some.inj (inSlot.symm.trans kept)
    refine .inl ⟨old, get_eq_ok.mpr ⟨slot?_eq_some.mpr ⟨nonzero, filled⟩, ?_⟩, alike⟩
    rintro rfl
    exact used (alike.eq rfl)
  · exact .inr (grown.added _ constant (Nat.le_of_not_lt inside) inSlot)

/-- The slots of a grown pool are alike to the slots before, followed by names. -/
theorem split (grown : Grown before after) :
    ∃ old names, after.slots.toList = old ++ names ∧
      List.Forall₂ Constant.Alike before.slots.toList old ∧ ∀ constant ∈ names, constant.IsName := by
  have shorter : before.slots.toList.length ≤ after.slots.toList.length := by
    rw [← size_eq_length, ← size_eq_length]
    exact grown.size_le
  refine ⟨after.slots.toList.take before.size, after.slots.toList.drop before.size,
    (List.take_append_drop _ _).symm, ?_, ?_⟩
  · rw [List.forall₂_iff_get]
    refine ⟨?_, fun position inside otherInside => ?_⟩
    · rw [List.length_take, size_eq_length, Nat.min_eq_left shorter]
    · have old : before.slots[position]? = some (before.slots.toList.get ⟨position, inside⟩) := by
        rw [← Array.getElem?_toList, List.get_eq_getElem, List.getElem?_eq_getElem inside]
      obtain ⟨later, kept, alike⟩ := grown.kept position _ old
      have same : (after.slots.toList.take before.size).get ⟨position, otherInside⟩ = later := by
        rw [← Array.getElem?_toList] at kept
        rw [List.get_eq_getElem, List.getElem_take]
        exact (List.getElem?_eq_some_iff.mp kept).2
      rw [same]
      exact alike
  · intro constant member
    obtain ⟨distance, found⟩ := List.mem_iff_getElem?.mp member
    rw [List.getElem?_drop, Array.getElem?_toList] at found
    exact (grown.added _ constant (Nat.le_add_right _ _) found).1

end Grown

/-- Slots that are alike to laid out slots, followed by names, are laid out. -/
theorem Laid.grow {slots old names : List Constant} (laid : Laid slots)
    (alike : List.Forall₂ Constant.Alike slots old) (added : ∀ constant ∈ names, constant.IsName) :
    Laid (old ++ names) := by
  induction laid generalizing old with
  | nil =>
    obtain rfl := List.forall₂_nil_left_iff.mp alike
    rw [List.nil_append]
    induction names with
    | nil => exact .nil
    | cons name rest ih =>
      obtain ⟨first, others⟩ := List.forall_mem_cons.mp added
      refine .narrow ?_ ?_ (ih others)
      · cases name <;> first | rfl | cases first
      · rintro rfl
        cases first
  | @narrow constant rest narrow used laid ih =>
    obtain ⟨later, others, same, alikeRest, rfl⟩ := List.forall₂_cons_left_iff.mp alike
    refine .narrow ?_ ?_ (ih alikeRest)
    · rw [Constant.isWide_eq_of_kind same.kind, narrow]
    · rintro rfl
      exact used (Constant.eq_reserved_of_kind same.kind.symm)
  | @wide constant rest wide laid ih =>
    obtain ⟨later, tail, same, alikeTail, rfl⟩ := List.forall₂_cons_left_iff.mp alike
    obtain ⟨upper, others, reserved, alikeRest, rfl⟩ := List.forall₂_cons_left_iff.mp alikeTail
    obtain rfl := Constant.eq_reserved_of_kind reserved.kind
    refine .wide ?_ (ih alikeRest)
    rw [Constant.isWide_eq_of_kind same.kind, wide]

theorem Grown.laid {before after : Pool} (grown : Grown before after) (laid : Laid before.slots.toList) :
    Laid after.slots.toList := by
  obtain ⟨old, names, slots, alike, added⟩ := grown.split
  rw [slots]
  exact laid.grow alike added

/-- The constants in use of slots that start at an index. -/
def entriesFrom (start : Nat) (slots : List Constant) : List (Index × Constant) :=
  (slots.zipIdx start).filterMap fun (constant, index) =>
    if constant = .reserved then none else some (UInt16.ofNat index, constant)

theorem entriesFrom_append (start : Nat) (first second : List Constant) :
    entriesFrom start (first ++ second) =
      entriesFrom start first ++ entriesFrom (start + first.length) second := by
  rw [entriesFrom, List.zipIdx_append, List.filterMap_append]
  rfl

theorem entriesFrom_cons (start : Nat) (constant : Constant) (rest : List Constant) :
    entriesFrom start (constant :: rest) =
      (if constant = .reserved then [] else [(UInt16.ofNat start, constant)]) ++ entriesFrom (start + 1) rest := by
  rw [entriesFrom, List.zipIdx_cons, List.filterMap_cons]
  by_cases reserved : constant = .reserved
  · simp only [if_pos reserved]
    rfl
  · simp only [if_neg reserved]
    rfl

theorem entriesFrom_alike (start : Nat) {slots old : List Constant}
    (alike : List.Forall₂ Constant.Alike slots old) :
    List.Forall₂ (fun entry later => later.1 = entry.1 ∧ Constant.Alike entry.2 later.2) (entriesFrom start slots)
      (entriesFrom start old) := by
  induction alike generalizing start with
  | nil => exact .nil
  | @cons constant later slots old head _ ih =>
    rw [entriesFrom_cons, entriesFrom_cons]
    refine List.rel_append ?_ (ih _)
    have same : later = .reserved ↔ constant = .reserved := by
      constructor
      · rintro rfl
        exact Constant.eq_reserved_of_kind head.kind.symm
      · rintro rfl
        exact head.eq rfl
    by_cases reserved : constant = .reserved
    · rw [if_pos reserved, if_pos (same.mpr reserved)]
      exact .nil
    · rw [if_neg reserved, if_neg (mt same.mp reserved)]
      exact .cons ⟨rfl, head⟩ .nil

/-- The entries of a grown pool are alike to the entries before, followed by names. -/
theorem Grown.entries {before after : Pool} (grown : Grown before after) :
    ∃ old names, after.entries = old ++ names ∧
      List.Forall₂ (fun entry later => later.1 = entry.1 ∧ Constant.Alike entry.2 later.2) before.entries old ∧
      ∀ entry ∈ names, entry.2.IsName := by
  obtain ⟨old, names, slots, alike, added⟩ := grown.split
  have whole : after.entries = entriesFrom 1 (old ++ names) := by
    rw [← slots]
    rfl
  rw [entriesFrom_append] at whole
  refine ⟨_, _, whole, entriesFrom_alike 1 alike, ?_⟩
  rintro ⟨index, constant⟩ member
  obtain ⟨⟨other, place⟩, inside, kept⟩ := List.mem_filterMap.mp member
  dsimp only at kept
  split_ifs at kept
  cases kept
  exact added constant (List.fst_mem_of_mem_zipIdx inside)

/-! ### Slots that stay -/

variable {before middle after pool result : Pool} {index : Index} {constant : Constant}

/-- Every slot holds the constant that it held before. -/
def Continues (before after : Pool) : Prop :=
  ∀ (position : Nat) (constant : Constant), before.slots[position]? = some constant →
    after.slots[position]? = some constant

theorem slots_push (narrow : constant.isWide = false) :
    (pool.push constant).slots = pool.slots.push constant := by
  rw [push, narrow]
  rfl

namespace Continues

theorem refl (pool : Pool) : Continues pool pool := fun _ _ found => found

theorem trans (first : Continues before middle) (second : Continues middle after) : Continues before after :=
  fun position constant found => second position constant (first position constant found)

theorem keeps (continues : Continues before after) : Keeps before after :=
  ⟨fun position constant found => ⟨constant, continues position constant found, rfl⟩⟩

theorem slot (continues : Continues before after) (found : before.slot? index = some constant) :
    after.slot? index = some constant := by
  obtain ⟨nonzero, found⟩ := slot?_eq_some.mp found
  exact slot?_eq_some.mpr ⟨nonzero, continues _ _ found⟩

theorem className (continues : Continues before after) {name : String} (found : before.className index = .ok name) :
    after.className index = .ok name := by
  obtain ⟨text, slot, read⟩ := className_eq_ok.mp found
  exact className_eq_ok.mpr ⟨text, continues.slot slot, continues.keeps.utf8 read⟩

theorem push (pool : Pool) (constant : Constant) : Continues pool (pool.push constant) := by
  intro position other found
  rw [← Array.getElem?_toList] at found ⊢
  rw [toList_push, List.getElem?_append_left (List.getElem?_eq_some_iff.mp found).1, found]

end Continues

/-! ### Putting a name behind the pool -/

/-- The pool after new names were put behind it. -/
structure Extended (before after : Pool) : Prop extends Grown before after where
  same : ∀ (position : Nat) (constant : Constant), before.slots[position]? = some constant →
    after.slots[position]? = some constant

theorem Extended.refl (pool : Pool) : Extended pool pool :=
  { Grown.refl pool with same := Continues.refl pool }

theorem Extended.trans (first : Extended before middle) (second : Extended middle after) : Extended before after :=
  { first.toGrown.trans second.toGrown with same := Continues.trans first.same second.same }

theorem Extended.slot_same (extended : Extended pool result) (found : pool.slot? index = some constant) :
    result.slot? index = some constant :=
  Continues.slot extended.same found

theorem slot?_of_indexOf? (small : pool.size ≤ maxSlots) (found : pool.indexOf? constant = some index) :
    pool.slot? index = some constant := by
  obtain ⟨position, first, rfl⟩ := Option.map_eq_some_iff.mp found
  obtain ⟨inside, same, -⟩ := Array.findIdx?_eq_some_iff_getElem.mp first
  unfold maxSlots at small
  have bound : position < pool.size := inside
  have number : (UInt16.ofNat (position + 1)).toNat = position + 1 :=
    UInt16.toNat_ofNat_of_lt' (show position + 1 < 65536 by omega)
  refine slot?_eq_some.mpr ⟨?_, ?_⟩
  · intro zero
    rw [zero] at number
    exact absurd number (by simp)
  · rw [number, Nat.add_sub_cancel, Array.getElem?_eq_getElem inside, eq_of_beq same]

theorem not_mem_of_indexOf? (missing : pool.indexOf? constant = none) : constant ∉ pool.slots := by
  intro member
  have none := Array.findIdx?_eq_none_iff.mp (Option.map_eq_none_iff.mp missing) constant member
  simp at none

theorem fits_iff : pool.fits constant = true ↔ pool.size + constant.slots ≤ maxSlots :=
  decide_eq_true_iff

/-- The index of the next slot is exact if a constant fits. -/
theorem toNat_nextIndex (fits : pool.fits constant = true) : pool.nextIndex.toNat = pool.size + 1 := by
  have room := fits_iff.mp fits
  have positive := constant.slots_pos
  unfold maxSlots at room
  exact UInt16.toNat_ofNat_of_lt' (show _ < 65536 by omega)

theorem slot?_nextIndex_push (fits : pool.fits constant = true) :
    (pool.push constant).slot? pool.nextIndex = some constant := by
  have number := toNat_nextIndex fits
  refine slot?_eq_some.mpr ⟨?_, ?_⟩
  · intro zero
    rw [zero] at number
    exact absurd number (by simp)
  · rw [number, Nat.add_sub_cancel, ← Array.getElem?_toList, toList_push, size_eq_length,
      List.getElem?_append_right (Nat.le_refl _), Nat.sub_self]
    cases constant.isWide <;> rfl

/-- A constant that fits is put after the last slot. -/
theorem insert_eq_ok : insert constant pool = .ok index result ↔
    pool.fits constant = true ∧ pool.nextIndex = index ∧ pool.push constant = result := by
  unfold insert
  by_cases fits : pool.fits constant = true <;> simp [fits]

/-- A constant that does not fit leaves the pool as it is. -/
theorem insert_eq_error {cause : Fault} : insert constant pool = .error cause result ↔
    ¬pool.fits constant = true ∧ .poolOverflow maxSlots = cause ∧ pool = result := by
  unfold insert
  by_cases fits : pool.fits constant = true <;> simp [fits]

/-- A constant is asked for: its index points at it, and the pool is as before or has it as its last. -/
theorem intern_eq_ok (small : pool.size ≤ maxSlots) (done : intern constant pool = .ok index result) :
    result.slot? index = some constant ∧ (result = pool ∨
      pool.fits constant = true ∧ constant ∉ pool.slots ∧ result = pool.push constant) := by
  unfold intern at done
  split at done
  next found =>
    cases done
    exact ⟨slot?_of_indexOf? small found, .inl rfl⟩
  next missing =>
    obtain ⟨fits, rfl, rfl⟩ := insert_eq_ok.mp done
    exact ⟨slot?_nextIndex_push fits, .inr ⟨fits, not_mem_of_indexOf? missing, rfl⟩⟩

/-- A constant that does not fit leaves the pool as it is. -/
theorem intern_eq_error {cause : Fault} (failed : intern constant pool = .error cause result) :
    cause = .poolOverflow maxSlots ∧ result = pool := by
  unfold intern at failed
  split at failed
  next => cases failed
  next =>
    obtain ⟨-, rfl, rfl⟩ := insert_eq_error.mp failed
    exact ⟨rfl, rfl⟩

/-- A name that is in no slot, put behind the pool. -/
theorem extended_push (fits : pool.fits constant = true) (missing : constant ∉ pool.slots)
    (name : constant.IsName) (refers : pool.RefersIn constant) : Extended pool (pool.push constant) := by
  have narrow : constant.isWide = false := by
    cases constant <;> first | rfl | cases name
  have new {position : Nat} {other : Constant} (outside : pool.size ≤ position)
      (found : (pool.push constant).slots[position]? = some other) :
      position = pool.size ∧ other = constant := by
    rw [slots_push narrow] at found
    have bound := (Array.getElem?_eq_some_iff.mp found).1
    rw [Array.size_push] at bound
    obtain rfl : position = pool.size := Nat.le_antisymm (Nat.le_of_lt_succ bound) outside
    exact ⟨rfl, Option.some.inj (found.symm.trans Array.getElem?_push_size)⟩
  have same : Continues pool (pool.push constant) := .push pool constant
  have keeps : Keeps pool (pool.push constant) := same.keeps
  refine { toKeeps := keeps, added := ?added, fresh := ?fresh, small := ?small, same }
  case added =>
    intro position other outside found
    obtain ⟨-, rfl⟩ := new outside found
    exact ⟨name, keeps.refersIn refers⟩
  case fresh =>
    intro first second other outside found again
    obtain ⟨rfl, rfl⟩ := new outside found
    by_cases inside : second < pool.size
    · rw [slots_push narrow, Array.getElem?_push_lt inside] at again
      refine absurd ?_ missing
      rw [← Option.some.inj again]
      exact Array.getElem_mem inside
    · exact (new (Nat.le_of_not_lt inside) again).1
  case small =>
    intro _
    rw [size_push]
    exact fits_iff.mp fits

/-- **A name is asked for.** Its index points at it, and the pool grows by at most one slot. -/
theorem extended_of_intern (small : pool.size ≤ maxSlots) (refers : pool.RefersIn constant)
    (name : constant.IsName) (done : intern constant pool = .ok index result) :
    Extended pool result ∧ result.slot? index = some constant ∧ result.size ≤ pool.size + 1 := by
  have narrow : constant.isWide = false := by
    cases constant <;> first | rfl | cases name
  obtain ⟨found, rfl | ⟨fits, missing, rfl⟩⟩ := intern_eq_ok small done
  · exact ⟨.refl _, found, Nat.le_succ _⟩
  · refine ⟨extended_push fits missing name refers, found, ?_⟩
    rw [size_push, Constant.slots, narrow]
    exact Nat.le_refl _

/-! ### Pointing a constant at a name -/

/-- A pool with another constant in one of its slots. -/
theorem slot?_set {old : Constant} (found : pool.slot? index = some old) (new : Constant) (other : Index) :
    (pool.set index new).slot? other = if other = index then some new else pool.slot? other := by
  obtain ⟨nonzero, slot⟩ := slot?_eq_some.mp found
  have inside := (Array.getElem?_eq_some_iff.mp slot).1
  rw [set, if_neg nonzero]
  by_cases same : other = index
  · subst same
    rw [if_pos rfl, slot?, if_neg nonzero, Array.getElem?_setIfInBounds_self_of_lt inside]
  · rw [if_neg same, slot?, slot?]
    by_cases zero : other = 0
    · rw [if_pos zero, if_pos zero]
    · have apart : index.toNat - 1 ≠ other.toNat - 1 := by
        have one : index.toNat ≠ 0 := toNat_ne_zero nonzero
        have two : other.toNat ≠ 0 := toNat_ne_zero zero
        have three : other.toNat ≠ index.toNat := fun equal => same (UInt16.toNat.inj equal)
        omega
      rw [if_neg zero, if_neg zero, Array.getElem?_setIfInBounds_ne apart]

theorem size_set (pool : Pool) (index : Index) (constant : Constant) : (pool.set index constant).size = pool.size := by
  unfold set
  split
  · rfl
  · exact Array.size_setIfInBounds

/-- **A constant in a slot is pointed at another name.** -/
theorem grown_set (found : pool.slot? index = some constant) (target : Index) :
    Grown pool (pool.set index (constant.repoint target)) := by
  have size := size_set pool index (constant.repoint target)
  have inside {position : Nat} {other : Constant}
      (held : (pool.set index (constant.repoint target)).slots[position]? = some other) : position < pool.size := by
    rw [← size]
    exact (Array.getElem?_eq_some_iff.mp held).1
  constructor
  case toKeeps =>
    constructor
    intro position old held
    obtain ⟨nonzero, slot⟩ := slot?_eq_some.mp found
    rw [set, if_neg nonzero]
    by_cases same : index.toNat - 1 = position
    · subst same
      obtain rfl : old = constant := Option.some.inj (held.symm.trans slot)
      have bound := (Array.getElem?_eq_some_iff.mp slot).1
      exact ⟨old.repoint target, Array.getElem?_setIfInBounds_self_of_lt bound, old.alike_repoint target⟩
    · exact ⟨old, (Array.getElem?_setIfInBounds_ne same).trans held, rfl⟩
  case added => exact fun _ _ outside held => absurd (inside held) (Nat.not_lt.mpr outside)
  case fresh => exact fun _ _ _ outside held _ => absurd (inside held) (Nat.not_lt.mpr outside)
  case small =>
    rw [size]
    exact id

section Repoint

variable {kinds : List Kind} {target : Index}

/-- A slot is repointed if its constant is of one of the kinds, and stays as it is if not. -/
theorem repoint_eq_ok : repoint kinds index target pool = .ok () result ↔
    ∃ constant, pool.slot? index = some constant ∧
      (if constant.kind ∈ kinds then pool.set index (constant.repoint target) else pool) = result := by
  unfold repoint
  cases pool.slot? index with
  | none => simp
  | some constant => by_cases fitting : constant.kind ∈ kinds <;> simp [fitting]

/-- An index of no slot leaves the pool as it is. -/
theorem repoint_eq_error {cause : Fault} : repoint kinds index target pool = .error cause result ↔
    pool.slot? index = none ∧ .outOfPool index pool.size = cause ∧ pool = result := by
  unfold repoint
  cases pool.slot? index with
  | none => simp
  | some constant => by_cases fitting : constant.kind ∈ kinds <;> simp [fitting]

variable (done : repoint kinds index target pool = .ok () result)
include done

theorem grown_repoint : Grown pool result := by
  obtain ⟨constant, found, rfl⟩ := repoint_eq_ok.mp done
  split_ifs
  · exact grown_set found target
  · exact .refl pool

theorem size_repoint : result.size = pool.size := by
  obtain ⟨constant, found, rfl⟩ := repoint_eq_ok.mp done
  split_ifs
  · exact size_set _ _ _
  · rfl

/-- The constant at the index is the one that is repointed. -/
theorem slot?_repoint (found : pool.slot? index = some constant) (fitting : constant.kind ∈ kinds) :
    result.slot? index = some (constant.repoint target) := by
  obtain ⟨other, again, rfl⟩ := repoint_eq_ok.mp done
  cases found.symm.trans again
  rw [if_pos fitting, slot?_set found, if_pos rfl]

/-- Repointing changes the constant at its index only. -/
theorem slot?_repoint_of_ne {other : Index} (differ : other ≠ index) : result.slot? other = pool.slot? other := by
  obtain ⟨constant, found, rfl⟩ := repoint_eq_ok.mp done
  split_ifs
  · rw [slot?_set found, if_neg differ]
  · rfl

end Repoint

/-! ### The index of a replacement -/

/-- The index stands for the replacement. -/
def Names (pool : Pool) (index : Index) : Replacement → Prop
  | .text value => pool.utf8 index = .ok value
  | .nameAndType name descriptor => pool.nameAndType index = .ok (name, descriptor)

theorem Keeps.names {before after : Pool} (keeps : Keeps before after) {replacement : Replacement}
    (names : before.Names index replacement) : after.Names index replacement := by
  cases replacement with
  | text value => exact keeps.utf8 names
  | nameAndType name descriptor => exact keeps.nameAndType names

theorem has_of_utf8 {text : String} (found : pool.utf8 index = .ok text) : pool.Has .utf8 index := by
  obtain ⟨bytes, slot, -⟩ := utf8_eq_ok.mp found
  exact has_utf8.mpr ⟨bytes, utf8Bytes_eq_ok.mpr slot⟩

theorem has_of_className {text : String} (found : pool.className index = .ok text) : pool.Has .classRef index := by
  obtain ⟨name, slot, -⟩ := className_eq_ok.mp found
  exact has_classRef.mpr ⟨name, classRef_eq_ok.mpr slot⟩

theorem has_of_nameAndType {pair : String × String} (found : pool.nameAndType index = .ok pair) :
    pool.Has .nameAndType index := by
  obtain ⟨first, second, slot, -⟩ := nameAndType_eq_ok.mp (found : pool.nameAndType index = .ok (pair.1, pair.2))
  exact has_nameAndType.mpr ⟨(first, second), nameAndTypeRef_eq_ok.mpr slot⟩

theorem internText_eq_ok (small : pool.size ≤ maxSlots) {text : String}
    (done : internText text pool = .ok index result) :
    Extended pool result ∧ result.utf8 index = .ok text ∧ result.size ≤ pool.size + 1 := by
  have refers : pool.RefersIn (.utf8 (Text.encode text)) := trivial
  obtain ⟨extended, found, size⟩ := extended_of_intern small refers trivial done
  exact ⟨extended, utf8_eq_ok.mpr ⟨_, found, Text.decode_encode text⟩, size⟩

theorem internNameAndType_eq_ok (small : pool.size ≤ maxSlots) {name descriptor : String}
    (done : internNameAndType name descriptor pool = .ok index result) :
    Extended pool result ∧ result.nameAndType index = .ok (name, descriptor) ∧
      result.size ≤ pool.size + 3 := by
  obtain ⟨nameIndex, withName, first, done⟩ := edit_bind_eq_ok.mp done
  obtain ⟨descriptorIndex, withBoth, second, done⟩ := edit_bind_eq_ok.mp done
  obtain ⟨nameExtended, nameFound, nameSize⟩ := internText_eq_ok small first
  obtain ⟨bothExtended, descriptorFound, bothSize⟩ := internText_eq_ok (nameExtended.small small) second
  have nameStays := bothExtended.utf8 nameFound
  have refers : withBoth.RefersIn (.nameAndType nameIndex descriptorIndex) :=
    ⟨has_of_utf8 nameStays, has_of_utf8 descriptorFound⟩
  obtain ⟨extended, found, size⟩ :=
    extended_of_intern ((nameExtended.trans bothExtended).small small) refers trivial done
  refine ⟨(nameExtended.trans bothExtended).trans extended, nameAndType_eq_ok.mpr
    ⟨nameIndex, descriptorIndex, found, extended.utf8 nameStays, extended.utf8 descriptorFound⟩, ?_⟩
  omega

end Pool

/-- **A replacement is asked for.** Its index stands for it, and the pool grows by at most three slots. -/
theorem Replacement.intern_eq_ok {pool result : Pool} {index : Index} {replacement : Replacement}
    (small : pool.size ≤ Pool.maxSlots) (done : replacement.intern pool = .ok index result) :
    Pool.Extended pool result ∧ result.Names index replacement ∧ result.size ≤ pool.size + 3 := by
  cases replacement with
  | text value =>
    obtain ⟨extended, found, size⟩ := Pool.internText_eq_ok small done
    exact ⟨extended, found, Nat.le_add_right_of_le (k := 2) size⟩
  | nameAndType name descriptor => exact Pool.internNameAndType_eq_ok small done

end JarRename
