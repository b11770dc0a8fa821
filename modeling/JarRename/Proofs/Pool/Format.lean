import JarRename.ClassFile.Writer
import JarRename.Proofs.Pool.Lookup
import JarRename.Proofs.Reading

/-!
**The format of the pool.**

A constant is read from its tag and its contents, and a pool from the number of its slots and its
constants. A constant of two slots has no bytes for its upper half.

* `Constant.read_inverts`: constants;
* `Pool.Laid`: the layout of slots, in which only constants of two slots have an upper half;
* `Pool.Fills`, `Pool.readUpTo_eq_ok`: constants read until the declared slots are full;
* `Pool.read_inverts`: pools.
-/

namespace JarRename

/-! ### Constants -/

namespace Constant

/-- The contents of a constant are read by its kind. -/
theorem readOf_inverts (kind : Kind) :
    Reader.Inverts (readOf kind) contents (fun constant => constant.kind = kind) := by
  intro bytes constant rest
  cases kind
  case utf8 =>
    simp only [readOf, run_bind_eq_ok, Reader.u16_eq_ok, Reader.block_eq_ok, run_pure_eq_ok]
    constructor
    · rintro ⟨length, _, rfl, text, _, ⟨size, rfl⟩, rfl, rfl⟩
      refine ⟨rfl, Bytes.bytes16 length ++ text, ?_, by rw [List.append_assoc]⟩
      rw [contents, bind_eq_ok]
      refine ⟨Bytes.bytes16 length, Bytes.length16_eq_ok.mpr ⟨?_, ?_⟩, rfl⟩
      · rw [size]
        exact length.toNat_lt
      · rw [size, UInt16.ofNat_toNat]
    · rintro ⟨same, written, done, rfl⟩
      cases constant <;> cases same
      rename_i text
      obtain ⟨counted, counts, joined⟩ := bind_eq_ok.mp done
      obtain ⟨fits, rfl⟩ := Bytes.length16_eq_ok.mp counts
      cases joined
      refine ⟨UInt16.ofNat text.length, text ++ rest, by rw [List.append_assoc], text, rest, ⟨?_, rfl⟩, rfl, rfl⟩
      exact (UInt16.toNat_ofNat_of_lt' fits).symm
  case integer | float =>
    simp only [readOf, run_bind_eq_ok, Reader.u32_eq_ok, run_pure_eq_ok]
    constructor
    · rintro ⟨bits, _, rfl, rfl, rfl⟩
      exact ⟨rfl, _, rfl, rfl⟩
    · rintro ⟨same, written, done, rfl⟩
      cases constant <;> cases same
      cases done
      exact ⟨_, _, rfl, rfl, rfl⟩
  case long | double =>
    simp only [readOf, run_bind_eq_ok, Reader.u64_eq_ok, run_pure_eq_ok]
    constructor
    · rintro ⟨bits, _, rfl, rfl, rfl⟩
      exact ⟨rfl, _, rfl, rfl⟩
    · rintro ⟨same, written, done, rfl⟩
      cases constant <;> cases same
      cases done
      exact ⟨_, _, rfl, rfl, rfl⟩
  case classRef | string | methodType | moduleRef | packageRef =>
    simp only [readOf, run_bind_eq_ok, Reader.u16_eq_ok, run_pure_eq_ok]
    constructor
    · rintro ⟨index, _, rfl, rfl, rfl⟩
      exact ⟨rfl, _, rfl, rfl⟩
    · rintro ⟨same, written, done, rfl⟩
      cases constant <;> cases same
      cases done
      exact ⟨_, _, rfl, rfl, rfl⟩
  case field | method | interfaceMethod | nameAndType | dynamic | invokeDynamic =>
    simp only [readOf, run_bind_eq_ok, Reader.u16_eq_ok, run_pure_eq_ok]
    constructor
    · rintro ⟨first, _, rfl, second, _, rfl, rfl, rfl⟩
      exact ⟨rfl, _, rfl, by rw [List.append_assoc]⟩
    · rintro ⟨same, written, done, rfl⟩
      cases constant <;> cases same
      cases done
      exact ⟨_, _, by rw [List.append_assoc], _, _, rfl, rfl, rfl⟩
  case methodHandle =>
    simp only [readOf, run_bind_eq_ok, Reader.u8_eq_ok, Reader.u16_eq_ok, run_pure_eq_ok]
    constructor
    · rintro ⟨handle, _, rfl, target, _, rfl, rfl, rfl⟩
      exact ⟨rfl, _, rfl, rfl⟩
    · rintro ⟨same, written, done, rfl⟩
      cases constant <;> cases same
      cases done
      exact ⟨_, _, rfl, _, _, rfl, rfl, rfl⟩
  case reserved =>
    rw [readOf, run_pure_eq_ok]
    constructor
    · rintro ⟨rfl, rfl⟩
      exact ⟨rfl, [], rfl, rfl⟩
    · rintro ⟨same, written, done, rfl⟩
      cases constant <;> cases same
      cases done
      exact ⟨rfl, rfl⟩

/-- Only upper halves have no tag. -/
theorem tag?_eq_none {constant : Constant} : constant.kind.tag? = none ↔ constant = .reserved := by
  cases constant <;> simp [kind, Kind.tag?]

/-- A tag byte is that of the kind that is read from it. -/
theorem tag?_of_ofTag? {tag : UInt8} {found : Kind} (read : Kind.ofTag? tag = some found) :
    found.tag? = some tag := by
  unfold Kind.ofTag? at read
  split at read
  all_goals
    first
    | (next code =>
        cases read
        have same := congrArg UInt8.ofNat code
        rw [UInt8.ofNat_toNat] at same
        rw [same]
        rfl)
    | cases read

/-- A constant is read from its tag and its contents. -/
theorem read_inverts : Reader.Inverts read toBytes (· ≠ .reserved) := by
  intro bytes constant rest
  rw [read, run_bind_eq_ok]
  constructor
  · rintro ⟨tag, between, first, done⟩
    obtain rfl := Reader.u8_eq_ok.mp first
    cases tagged : Kind.ofTag? tag with
    | none =>
      rw [tagged] at done
      exact absurd done Reader.fail_ne_ok
    | some found =>
      rw [tagged] at done
      obtain ⟨rfl, written, wrote, rfl⟩ := (readOf_inverts found _ _ _).mp done
      have tagOf := tag?_of_ofTag? tagged
      refine ⟨?_, tag :: written, ?_, rfl⟩
      · intro reserved
        rw [tag?_eq_none.mpr reserved] at tagOf
        cases tagOf
      · rw [toBytes, tagOf]
        exact bind_eq_ok.mpr ⟨written, wrote, rfl⟩
  · rintro ⟨used, written, done, rfl⟩
    cases tagOf : constant.kind.tag? with
    | none => exact absurd (tag?_eq_none.mp tagOf) used
    | some tag =>
      rw [toBytes, tagOf] at done
      obtain ⟨after, wrote, joined⟩ := bind_eq_ok.mp done
      cases joined
      refine ⟨tag, after ++ rest, Reader.u8_eq_ok.mpr rfl, ?_⟩
      rw [Kind.ofTag?_of_tag? tagOf]
      exact (readOf_inverts _ _ _ _).mpr ⟨rfl, after, wrote, rfl⟩

end Constant

/-! ### The pool -/

namespace Pool

/-- Slots in which every constant of two slots is followed by its upper half, and no other upper half
stands. -/
inductive Laid : List Constant → Prop
  | nil : Laid []
  | narrow {constant : Constant} {rest : List Constant} (narrow : constant.isWide = false)
      (used : constant ≠ .reserved) (laid : Laid rest) : Laid (constant :: rest)
  | wide {constant : Constant} {rest : List Constant} (wide : constant.isWide = true)
      (laid : Laid rest) : Laid (constant :: .reserved :: rest)

/-- The slots that a constant takes. -/
theorem toList_push (pool : Pool) (constant : Constant) :
    (pool.push constant).slots.toList =
      pool.slots.toList ++ if constant.isWide then [constant, .reserved] else [constant] := by
  unfold push
  cases constant.isWide <;> simp

theorem size_push (pool : Pool) (constant : Constant) :
    (pool.push constant).size = pool.size + constant.slots := by
  unfold push size Constant.slots
  cases constant.isWide <;> simp

theorem size_eq_length (pool : Pool) : pool.size = pool.slots.toList.length :=
  Array.length_toList.symm

/-- What is written for a list of values. -/
theorem concat_cons_eq_ok {α : Type} {write : α → Except Fault Bytes} {value : α} {later : List α}
    {written : Bytes} :
    Bytes.concat write (value :: later) = .ok written ↔
      ∃ first second, write value = .ok first ∧ Bytes.concat write later = .ok second ∧
        first ++ second = written := by
  rw [Bytes.concat, List.mapM_cons, bind_eq_ok]
  constructor
  · rintro ⟨parts, done, joined⟩
    obtain ⟨first, wrote, others⟩ := bind_eq_ok.mp done
    obtain ⟨later, mapped, same⟩ := bind_eq_ok.mp others
    cases same
    cases joined
    exact ⟨first, later.flatten, wrote, bind_eq_ok.mpr ⟨later, mapped, rfl⟩, rfl⟩
  · rintro ⟨first, second, wrote, others, rfl⟩
    obtain ⟨parts, mapped, joined⟩ := bind_eq_ok.mp others
    cases joined
    exact ⟨first :: parts, bind_eq_ok.mpr ⟨first, wrote, bind_eq_ok.mpr ⟨parts, mapped, rfl⟩⟩, rfl⟩

/-- The result is the pool with constants added up to the declared slots, which are written in front of
the rest. -/
def Fills (declared : Nat) (pool result : Pool) (bytes rest : Bytes) : Prop :=
  ∃ added, result.slots.toList = pool.slots.toList ++ added ∧ Laid added ∧
    pool.size + added.length = declared ∧
    ∃ written, Bytes.concat Constant.toBytes added = .ok written ∧ bytes = written ++ rest

/-- Nothing is added to a pool whose slots are full. -/
theorem fills_full {declared : Nat} {pool result : Pool} {bytes rest : Bytes}
    (full : declared ≤ pool.size) :
    Fills declared pool result bytes rest ↔ (pool = result ∧ bytes = rest) ∧ result.size = declared := by
  constructor
  · rintro ⟨added, slots, -, length, written, wrote, rfl⟩
    obtain rfl : added = [] := List.length_eq_zero_iff.mp (by omega)
    cases wrote
    obtain ⟨⟨first⟩⟩ := pool
    obtain ⟨⟨second⟩⟩ := result
    rw [List.append_nil] at slots
    cases slots
    exact ⟨⟨rfl, rfl⟩, length⟩
  · rintro ⟨⟨rfl, rfl⟩, same⟩
    exact ⟨[], (List.append_nil _).symm, .nil, same, [], rfl, rfl⟩

/-- A pool with a free slot is filled by one constant and then by others. -/
theorem fills_free {declared : Nat} {pool result : Pool} {bytes rest : Bytes}
    (free : pool.size < declared) :
    Fills declared pool result bytes rest ↔
      ∃ constant between, Constant.read bytes = .ok (constant, between) ∧
        Fills declared (pool.push constant) result between rest := by
  constructor
  · rintro ⟨added, slots, laid, length, written, wrote, rfl⟩
    cases laid with
    | nil =>
      rw [List.length_nil] at length
      omega
    | @narrow constant later narrow used laid =>
      obtain ⟨first, second, wroteFirst, wroteLater, rfl⟩ := concat_cons_eq_ok.mp wrote
      refine ⟨constant, second ++ rest, (Constant.read_inverts _ _ _).mpr
        ⟨used, first, wroteFirst, by rw [List.append_assoc]⟩, later, ?_, laid, ?_, second, wroteLater, rfl⟩
      · rw [slots, toList_push, narrow]
        simp
      · rw [size_push, Constant.slots, narrow, if_neg Bool.false_ne_true]
        rw [List.length_cons] at length
        omega
    | @wide constant later wide laid =>
      obtain ⟨first, second, wroteFirst, wroteLater, rfl⟩ := concat_cons_eq_ok.mp wrote
      obtain ⟨upper, third, wroteUpper, wroteRest, rfl⟩ := concat_cons_eq_ok.mp wroteLater
      cases wroteUpper
      have used : constant ≠ .reserved := by
        rintro rfl
        cases wide
      refine ⟨constant, third ++ rest, (Constant.read_inverts _ _ _).mpr
        ⟨used, first, wroteFirst, by simp⟩, later, ?_, laid, ?_, third, wroteRest, rfl⟩
      · rw [slots, toList_push, wide]
        simp
      · rw [size_push, Constant.slots, wide, if_pos rfl]
        rw [List.length_cons, List.length_cons] at length
        omega
  · rintro ⟨constant, between, first, added, slots, laid, length, written, wrote, rfl⟩
    obtain ⟨used, start, wroteFirst, rfl⟩ := (Constant.read_inverts _ _ _).mp first
    rw [toList_push] at slots
    rw [size_push, Constant.slots] at length
    cases wide : constant.isWide with
    | false =>
      rw [wide, if_neg Bool.false_ne_true] at slots length
      refine ⟨constant :: added, by simpa using slots, .narrow wide used laid, ?_, start ++ written,
        concat_cons_eq_ok.mpr ⟨start, written, wroteFirst, wrote, rfl⟩, by rw [List.append_assoc]⟩
      rw [List.length_cons]
      omega
    | true =>
      rw [wide, if_pos rfl] at slots length
      refine ⟨constant :: .reserved :: added, by simpa using slots, .wide wide laid, ?_, start ++ written,
        concat_cons_eq_ok.mpr ⟨start, written, wroteFirst, ?_, rfl⟩, by rw [List.append_assoc]⟩
      · rw [List.length_cons, List.length_cons]
        omega
      · exact concat_cons_eq_ok.mpr ⟨[], written, rfl, wrote, rfl⟩

/-- A constant that fills declared slots fits. -/
theorem fits_of_fills {declared : Nat} {pool result : Pool} {bytes rest : Bytes} {constant : Constant}
    (small : declared ≤ maxSlots) (fills : Fills declared (pool.push constant) result bytes rest) :
    pool.fits constant = true := by
  obtain ⟨added, -, -, length, -⟩ := fills
  rw [size_push] at length
  exact decide_eq_true (by omega)

/-- **The constants of a pool** are read one by one until the declared slots are full. -/
theorem readUpTo_eq_ok {declared limit : Nat} {pool result : Pool} {bytes rest : Bytes}
    (enough : declared ≤ pool.size + limit) (small : declared ≤ maxSlots) :
    (readUpTo declared limit pool bytes = .ok (result, rest) ∧ result.size = declared) ↔
      Fills declared pool result bytes rest := by
  induction limit generalizing pool bytes with
  | zero => rw [readUpTo, run_pure_eq_ok, fills_full enough]
  | succ limit ih =>
    rw [readUpTo]
    by_cases full : declared ≤ pool.size
    · rw [if_neg (by omega), run_pure_eq_ok, fills_full full]
    have later (constant : Constant) : declared ≤ (pool.push constant).size + limit := by
      rw [size_push]
      unfold Constant.slots
      split <;> omega
    rw [if_pos (by omega), run_bind_eq_ok, fills_free (by omega)]
    constructor
    · rintro ⟨⟨constant, between, first, done⟩, same⟩
      by_cases fits : pool.fits constant = true
      · rw [if_pos fits] at done
        exact ⟨constant, between, first, (ih (later constant)).mp ⟨done, same⟩⟩
      · rw [if_neg fits] at done
        exact absurd done Reader.fail_ne_ok
    · rintro ⟨constant, between, first, fills⟩
      obtain ⟨done, same⟩ := (ih (later constant)).mpr fills
      refine ⟨⟨constant, between, first, ?_⟩, same⟩
      rw [if_pos (fits_of_fills small fills)]
      exact done

/-- **A pool** is read from the number of its slots and its constants. -/
theorem read_inverts : Reader.Inverts read toBytes (fun pool => Laid pool.slots.toList) := by
  intro bytes pool rest
  rw [read, run_bind_eq_ok]
  constructor
  · rintro ⟨count, between, first, done⟩
    obtain rfl := Reader.u16_eq_ok.mp first
    by_cases zero : count = 0
    · rw [if_pos zero] at done
      exact absurd done Reader.fail_ne_ok
    rw [if_neg zero] at done
    obtain ⟨found, left, read, done⟩ := run_bind_eq_ok.mp done
    by_cases same : found.size = count.toNat - 1
    · rw [if_pos same] at done
      obtain ⟨rfl, rfl⟩ := run_pure_eq_ok.mp done
      have bound := count.toNat_lt
      have small : count.toNat - 1 ≤ maxSlots := by
        unfold maxSlots
        omega
      obtain ⟨added, slots, laid, -, written, wrote, rfl⟩ :=
        (readUpTo_eq_ok (by omega) small).mp ⟨read, same⟩
      have all : found.slots.toList = added := slots
      have positive : count.toNat ≠ 0 := toNat_ne_zero zero
      rw [← all] at laid wrote
      refine ⟨laid, Bytes.bytes16 count ++ written, ?_, by rw [List.append_assoc]⟩
      rw [toBytes, bind_eq_ok]
      refine ⟨Bytes.bytes16 count, Bytes.length16_eq_ok.mpr ⟨by omega, ?_⟩,
        bind_eq_ok.mpr ⟨written, wrote, rfl⟩⟩
      rw [same, Nat.sub_add_cancel (by omega), UInt16.ofNat_toNat]
    · rw [if_neg same] at done
      exact absurd done Reader.fail_ne_ok
  · rintro ⟨laid, written, done, rfl⟩
    obtain ⟨counted, counts, others⟩ := bind_eq_ok.mp done
    obtain ⟨fits, rfl⟩ := Bytes.length16_eq_ok.mp counts
    obtain ⟨contents, wrote, joined⟩ := bind_eq_ok.mp others
    cases joined
    have counted : (UInt16.ofNat (pool.size + 1)).toNat = pool.size + 1 := UInt16.toNat_ofNat_of_lt' fits
    refine ⟨UInt16.ofNat (pool.size + 1), contents ++ rest,
      Reader.u16_eq_ok.mpr (by rw [List.append_assoc]), ?_⟩
    have nonzero : UInt16.ofNat (pool.size + 1) ≠ 0 := by
      intro zero
      rw [zero] at counted
      cases counted
    rw [if_neg nonzero, counted, Nat.add_sub_cancel, run_bind_eq_ok]
    have fills : Fills pool.size {} pool (contents ++ rest) rest :=
      ⟨pool.slots.toList, rfl, laid, (Nat.zero_add _).trans (size_eq_length pool).symm, contents, wrote, rfl⟩
    have small : pool.size ≤ maxSlots := by
      unfold maxSlots
      omega
    refine ⟨pool, rest, ((readUpTo_eq_ok (Nat.le_add_left _ _) small).mpr fills).1, ?_⟩
    rw [if_pos rfl]
    rfl

/-- A pool that can be written has a small number of slots. -/
theorem small_of_toBytes {pool : Pool} {written : Bytes} (wrote : pool.toBytes = .ok written) :
    pool.size ≤ maxSlots := by
  obtain ⟨counted, counts, -⟩ := bind_eq_ok.mp wrote
  obtain ⟨fits, -⟩ := Bytes.length16_eq_ok.mp counts
  unfold maxSlots
  omega

end Pool

end JarRename
