import JarRename.Proofs.Pool.Sound

/-!
**Constants that are put into a pool one after the other.**

A constant gets the index behind all slots in use, and it keeps that index, because constants are only put behind it. A
constant of two slots is refused as soon as one slot is left, which a constant of one slot can still take.

* `Pool.exists_insert_eq_error_iff`, `Pool.entries_push`: one constant more;
* `Pool.slot?_eq_none`, `Pool.indexOf?_eq_some`: indices of no slot, and the first index of a constant;
* `Pool.insertAll`: constants put into an empty pool, those left out that do not fit;
* `Pool.Lists`, `Pool.lists_insertAll`: what holds of the pool after them;
* `Pool.insertAll_exact`: which index every constant gets, and what every index gives back.
-/

namespace JarRename.Pool

variable {pool : Pool} {index : Index} {constant : Constant} {inserted : List (Index × Constant)}

/-! ### One constant more -/

theorem insert_of_fits (fits : pool.fits constant = true) :
    insert constant pool = .ok pool.nextIndex (pool.push constant) :=
  insert_eq_ok.mpr ⟨fits, rfl, rfl⟩

theorem insert_of_not_fits (full : ¬pool.fits constant = true) :
    insert constant pool = .error (.poolOverflow maxSlots) pool :=
  insert_eq_error.mpr ⟨full, rfl, rfl⟩

/-- **A constant is refused** exactly if its slots are too many. -/
theorem exists_insert_eq_error_iff :
    (∃ cause left, insert constant pool = .error cause left) ↔ maxSlots < pool.size + constant.slots := by
  rw [← Nat.not_le, ← fits_iff]
  constructor
  · rintro ⟨cause, left, failed⟩
    exact (insert_eq_error.mp failed).1
  · exact fun full => ⟨_, _, insert_of_not_fits full⟩

/-- Laid out slots behind laid out slots. -/
theorem Laid.append {first second : List Constant} (one : Laid first) (two : Laid second) : Laid (first ++ second) := by
  induction one with
  | nil => exact two
  | narrow narrow used _ ih => exact .narrow narrow used ih
  | wide wide _ ih => exact .wide wide ih

theorem Laid.push (laid : Laid pool.slots.toList) (used : constant ≠ .reserved) :
    Laid (pool.push constant).slots.toList := by
  rw [toList_push]
  refine laid.append ?_
  cases wide : constant.isWide with
  | false => exact .narrow wide used .nil
  | true => exact .wide wide .nil

/-- **The entries of a pool with one constant more**, whose upper half is no entry. -/
theorem entries_push (pool : Pool) (used : constant ≠ .reserved) :
    (pool.push constant).entries = pool.entries ++ [(pool.nextIndex, constant)] := by
  have last : UInt16.ofNat (1 + pool.slots.toList.length) = pool.nextIndex := by
    rw [nextIndex, size_eq_length, Nat.add_comm]
  show entriesFrom 1 (pool.push constant).slots.toList = entriesFrom 1 pool.slots.toList ++ _
  rw [toList_push, entriesFrom_append, List.append_cancel_left_eq]
  cases constant.isWide with
  | false =>
    show entriesFrom _ [constant] = _
    rw [entriesFrom_cons, if_neg used, last]
    rfl
  | true =>
    show entriesFrom _ [constant, .reserved] = _
    rw [entriesFrom_cons, entriesFrom_cons, if_neg used, if_pos rfl, last]
    rfl

/-! ### Indices -/

/-- **No slot** has index zero, and none an index above the number of slots. -/
theorem slot?_eq_none : pool.slot? index = none ↔ index = 0 ∨ pool.size < index.toNat := by
  unfold slot?
  by_cases zero : index = 0
  · simp [zero]
  · have positive : index.toNat ≠ 0 := toNat_ne_zero zero
    rw [if_neg zero, Array.getElem?_eq_none_iff, or_iff_right zero, size]
    omega

theorem get_of_slot?_eq_none (none : pool.slot? index = none) :
    pool.get index = .error (.outOfPool index pool.size) := by
  rw [get, none]

theorem get_of_reserved (upper : pool.slot? index = some .reserved) : pool.get index = .error (.upperHalf index) := by
  rw [get, upper]

/-- A constant of two slots has its upper half at the next index. -/
theorem slot?_succ_of_isWide (small : pool.size ≤ maxSlots) (laid : Laid pool.slots.toList)
    (found : pool.slot? index = some constant) (wide : constant.isWide = true) :
    pool.slot? (index + 1) = some .reserved := by
  obtain ⟨nonzero, slot⟩ := slot?_eq_some.mp found
  have positive : index.toNat ≠ 0 := toNat_ne_zero nonzero
  have upper : pool.slots.toList[index.toNat - 1 + 1]? = some .reserved := by
    refine (laid.reserved_iff _).mpr ⟨_, constant, rfl, ?_, wide⟩
    rw [Array.getElem?_toList, slot]
  rw [Array.getElem?_toList] at upper
  have inside : index.toNat - 1 + 1 < pool.size := (Array.getElem?_eq_some_iff.mp upper).1
  unfold maxSlots at small
  have number : (index + 1).toNat = index.toNat + 1 := by
    rw [UInt16.toNat_add]
    exact Nat.mod_eq_of_lt (show index.toNat + 1 < 65536 by omega)
  refine slot?_eq_some.mpr ⟨fun zero => ?_, ?_⟩
  · rw [zero] at number
    cases number
  · rw [number, ← upper]
    congr 1
    omega

/-- **The first index of a constant.** -/
theorem indexOf?_eq_some (small : pool.size ≤ maxSlots) :
    pool.indexOf? constant = some index ↔
      pool.slot? index = some constant ∧ ∀ other, pool.slot? other = some constant → index ≤ other := by
  have first (index : Index) (found : pool.indexOf? constant = some index) (other : Index)
      (slot : pool.slot? other = some constant) : index ≤ other := by
    obtain ⟨nonzero, slot⟩ := slot?_eq_some.mp slot
    obtain ⟨position, least, rfl⟩ := Option.map_eq_some_iff.mp found
    obtain ⟨inside, -, before⟩ := Array.findIdx?_eq_some_iff_getElem.mp least
    obtain ⟨_, same⟩ := Array.getElem?_eq_some_iff.mp slot
    have late : ¬other.toNat - 1 < position := fun earlier => before _ earlier (beq_iff_eq.mpr same)
    have positive : other.toNat ≠ 0 := toNat_ne_zero nonzero
    have bound : position < pool.size := inside
    unfold maxSlots at small
    have number : (UInt16.ofNat (position + 1)).toNat = position + 1 :=
      UInt16.toNat_ofNat_of_lt' (show position + 1 < 65536 by omega)
    rw [UInt16.le_iff_toNat_le, number]
    omega
  constructor
  · exact fun found => ⟨slot?_of_indexOf? small found, first index found⟩
  · rintro ⟨slot, least⟩
    cases found : pool.indexOf? constant with
    | none =>
      obtain ⟨-, slot⟩ := slot?_eq_some.mp slot
      exact absurd (Array.mem_of_getElem? slot) (not_mem_of_indexOf? found)
    | some other =>
      have later := least other (slot?_of_indexOf? small found)
      rw [UInt16.le_antisymm later (first other found index slot)]

/-! ### Constants after each other -/

/-- A pool and the constants that were put into it, in order and with their indices, after one constant more. Of a
constant that is refused, the pool keeps what the failure leaves behind. -/
def insertNext (progress : Pool × List (Index × Constant)) (constant : Constant) : Pool × List (Index × Constant) :=
  match insert constant progress.1 with
  | .ok index pool => (pool, progress.2 ++ [(index, constant)])
  | .error _ pool => (pool, progress.2)

/-- Constants put into an empty pool. -/
def insertAll (constants : List Constant) : Pool × List (Index × Constant) :=
  constants.foldl insertNext ({}, [])

theorem insertAll_append (constants more : List Constant) :
    insertAll (constants ++ more) = more.foldl insertNext (insertAll constants) :=
  List.foldl_append

theorem insertNext_of_fits (fits : pool.fits constant = true) :
    insertNext (pool, inserted) constant = (pool.push constant, inserted ++ [(pool.nextIndex, constant)]) := by
  rw [insertNext, insert_of_fits fits]

theorem insertNext_of_not_fits (full : ¬pool.fits constant = true) :
    insertNext (pool, inserted) constant = (pool, inserted) := by
  rw [insertNext, insert_of_not_fits full]

/-- **A pool lists the constants that were put into it**, and nothing else is in its slots but upper halves. -/
structure Lists (pool : Pool) (inserted : List (Index × Constant)) : Prop where
  small : pool.size ≤ maxSlots
  laid : Laid pool.slots.toList
  entries : pool.entries = inserted

/-- What was put into a pool is listed still when one constant more is put into it. -/
theorem Lists.insertNext (lists : pool.Lists inserted) (used : constant ≠ .reserved) :
    (insertNext (pool, inserted) constant).1.Lists (insertNext (pool, inserted) constant).2 ∧
      inserted <+: (insertNext (pool, inserted) constant).2 := by
  by_cases fits : pool.fits constant = true
  · rw [insertNext_of_fits fits]
    refine ⟨?_, List.prefix_append _ _⟩
    constructor
    case small =>
      rw [size_push]
      exact fits_iff.mp fits
    case laid => exact lists.laid.push used
    case entries => rw [entries_push pool used, lists.entries]
  · rw [insertNext_of_not_fits fits]
    exact ⟨lists, List.prefix_refl _⟩

/-- **The same for any constants more.** -/
theorem Lists.foldl (lists : pool.Lists inserted) {constants : List Constant}
    (used : ∀ constant ∈ constants, constant ≠ .reserved) :
    (constants.foldl Pool.insertNext (pool, inserted)).1.Lists (constants.foldl Pool.insertNext (pool, inserted)).2 ∧
      inserted <+: (constants.foldl Pool.insertNext (pool, inserted)).2 := by
  induction constants generalizing pool inserted with
  | nil => exact ⟨lists, List.prefix_refl _⟩
  | cons constant rest ih =>
    obtain ⟨first, others⟩ := List.forall_mem_cons.mp used
    obtain ⟨next, kept⟩ := lists.insertNext first
    obtain ⟨last, keptLater⟩ := ih next others
    exact ⟨last, kept.trans keptLater⟩

theorem lists_insertAll {constants : List Constant} (used : ∀ constant ∈ constants, constant ≠ .reserved) :
    (insertAll constants).1.Lists (insertAll constants).2 := by
  have empty : Lists {} [] := ⟨Nat.zero_le _, .nil, rfl⟩
  exact (empty.foldl used).1

namespace Lists

variable (lists : pool.Lists inserted)
include lists

theorem get_eq_ok : pool.get index = .ok constant ↔ (index, constant) ∈ inserted := by
  rw [← lists.entries, mem_entries lists.small]

theorem get_upper (member : (index, constant) ∈ inserted) (wide : constant.isWide = true) :
    pool.get (index + 1) = .error (.upperHalf (index + 1)) := by
  obtain ⟨slot, -⟩ := Pool.get_eq_ok.mp (lists.get_eq_ok.mpr member)
  exact get_of_reserved (slot?_succ_of_isWide lists.small lists.laid slot wide)

theorem textIndex?_eq_some {text : String} :
    pool.textIndex? text = some index ↔ (index, .utf8 (Text.encode text)) ∈ inserted ∧
      ∀ other, (other, .utf8 (Text.encode text)) ∈ inserted → index ≤ other := by
  have found (index : Index) : (index, .utf8 (Text.encode text)) ∈ inserted ↔
      pool.slot? index = some (.utf8 (Text.encode text)) := by
    rw [← lists.get_eq_ok, Pool.get_eq_ok]
    exact and_iff_left nofun
  rw [textIndex?, indexOf?_eq_some lists.small]
  simp only [found]

end Lists

/-- **Indices are exact and stable.** After constants are put into an empty pool, its entries are those that were not
refused, in order and with the indices that they got; an index gives back its constant then and whatever is put into the
pool later, and it fails if it is that of an upper half, zero or above the slots; a text is found at its smallest index.
One constant more gets the index behind the slots in use and is listed last, or it is refused for lack of slots and
changes nothing. -/
theorem insertAll_exact {constants : List Constant} {pool : Pool} {inserted : List (Index × Constant)}
    (used : ∀ constant ∈ constants, constant ≠ .reserved) (ran : insertAll constants = (pool, inserted)) :
    pool.entries = inserted ∧
      (∀ index constant, pool.get index = .ok constant ↔ (index, constant) ∈ inserted) ∧
      (∀ more : List Constant, (∀ constant ∈ more, constant ≠ .reserved) → ∀ index constant,
        (index, constant) ∈ inserted → (insertAll (constants ++ more)).1.get index = .ok constant) ∧
      (∀ index constant, (index, constant) ∈ inserted → constant.isWide = true →
        pool.get (index + 1) = .error (.upperHalf (index + 1))) ∧
      (∀ index : Index, index = 0 ∨ pool.size < index.toNat → pool.get index = .error (.outOfPool index pool.size)) ∧
      (∀ text index, pool.textIndex? text = some index ↔ pool.get index = .ok (.utf8 (Text.encode text)) ∧
        ∀ other, pool.get other = .ok (.utf8 (Text.encode text)) → index ≤ other) ∧
      ∀ constant,
        ((∃ cause left, insert constant pool = .error cause left) ↔ maxSlots < pool.size + constant.slots) ∧
        (∀ cause left, insert constant pool = .error cause left → cause = .poolOverflow maxSlots ∧ left = pool ∧
          insertAll (constants ++ [constant]) = (pool, inserted)) ∧
        ∀ index next, insert constant pool = .ok index next → index.toNat = pool.size + 1 ∧
          next.size = pool.size + constant.slots ∧
          insertAll (constants ++ [constant]) = (next, inserted ++ [(index, constant)]) := by
  have lists := lists_insertAll used
  rw [ran] at lists
  have oneMore (constant : Constant) : insertAll (constants ++ [constant]) = insertNext (pool, inserted) constant := by
    rw [insertAll_append, ran]
    rfl
  refine ⟨lists.entries, fun index constant => lists.get_eq_ok, ?_, fun index constant => lists.get_upper, ?_, ?_, ?_⟩
  · intro more usedMore index constant member
    obtain ⟨later, kept⟩ := lists.foldl usedMore
    rw [insertAll_append, ran]
    exact later.get_eq_ok.mpr (kept.mem member)
  · exact fun index none => get_of_slot?_eq_none (slot?_eq_none.mpr none)
  · intro text index
    simp only [lists.get_eq_ok]
    exact lists.textIndex?_eq_some
  · intro constant
    refine ⟨exists_insert_eq_error_iff, fun cause left failed => ?_, fun index next done => ?_⟩
    · obtain ⟨full, rfl, rfl⟩ := insert_eq_error.mp failed
      rw [oneMore, insertNext_of_not_fits full]
      exact ⟨rfl, rfl, rfl⟩
    · obtain ⟨fits, rfl, rfl⟩ := insert_eq_ok.mp done
      rw [oneMore, insertNext_of_fits fits]
      exact ⟨toNat_nextIndex fits, size_push pool constant, rfl⟩

/-- Constants of one slot up to the limit. -/
theorem size_insertAll_replicate {count : Nat} (few : count ≤ maxSlots) :
    (insertAll (List.replicate count (.integer 0))).1.size = count := by
  induction count with
  | zero => rfl
  | succ count ih =>
    have before := ih (Nat.le_of_succ_le few)
    have fits : (insertAll (List.replicate count (.integer 0))).1.fits (.integer 0) = true := by
      rw [fits_iff, before]
      exact few
    rw [List.replicate_succ', insertAll_append, List.foldl_cons, List.foldl_nil, ← Prod.eta (insertAll _),
      insertNext_of_fits fits, size_push, before]
    rfl

/-- With one slot left, a constant of two slots is refused, and one of one slot gets the last index. -/
theorem insertAll_exact_full : (insertAll (List.replicate 65533 (.integer 0))).1.size = 65533 ∧
    (∃ cause left, insert (.long 7) (insertAll (List.replicate 65533 (.integer 0))).1 = .error cause left) ∧
    ∃ next, insert (.integer 1) (insertAll (List.replicate 65533 (.integer 0))).1 = .ok 65534 next := by
  have used : ∀ constant ∈ List.replicate 65533 (Constant.integer 0), constant ≠ .reserved := by
    intro constant member
    rw [List.eq_of_mem_replicate member]
    nofun
  have size : (insertAll (List.replicate 65533 (.integer 0))).1.size = 65533 := size_insertAll_replicate (by decide)
  obtain ⟨-, -, -, -, -, -, next⟩ := insertAll_exact used (Prod.eta _).symm
  generalize (insertAll (List.replicate 65533 (.integer 0))).1 = pool at size next ⊢
  refine ⟨size, (next (.long 7)).1.mpr ?_, ?_⟩
  · rw [size]
    decide
  · obtain ⟨fails, -, gets⟩ := next (.integer 1)
    cases done : insert (.integer 1) pool with
    | error cause left =>
      have full := fails.mp ⟨cause, left, done⟩
      rw [size] at full
      exact absurd full (by decide)
    | ok index grown =>
      obtain ⟨number, -⟩ := gets index grown done
      rw [size] at number
      obtain rfl : index = 65534 := UInt16.toNat.inj number
      exact ⟨grown, rfl⟩

end JarRename.Pool
