import JarRename.Bytes.Reader
import JarRename.ClassFile.Writer
import JarRename.Proofs.Outcome

/-!
**Readers against writers.**

A reader inverts a writer on the values with a property if it reads such a value exactly from the bytes
the writer gives for it, whatever bytes follow. The numbers and blocks are characterized by what stands in
front of the rest, and tables inherit the inversion of their items.

* `Reader.u16_eq_ok`, `Reader.block_eq_ok` and so on: what the numbers and blocks are read from;
* `Reader.Inverts`: a reader inverts a writer;
* `Reader.Inverts.table`: a table of values whose reader inverts their writer.
-/

namespace JarRename

namespace Bytes

/-! ### Words -/

theorem word32_bytes32 (n : UInt32) :
    word32 (UInt8.ofNat (n.toNat / 16777216)) (UInt8.ofNat (n.toNat / 65536 % 256))
      (UInt8.ofNat (n.toNat / 256 % 256)) (UInt8.ofNat (n.toNat % 256)) = n := by
  have bound := n.toNat_lt
  apply UInt32.toNat.inj
  simp only [word32, UInt8.toNat_ofNat', UInt32.toNat_ofNat']
  omega

theorem bytes32_injective {first second : UInt32} (same : bytes32 first = bytes32 second) :
    first = second := by
  unfold bytes32 at same
  injection same with first1 same
  injection same with first2 same
  injection same with first3 same
  injection same with first4
  rw [← word32_bytes32 first, first1, first2, first3, first4, word32_bytes32]

theorem word64_halves (n : UInt64) :
    word64 (UInt32.ofNat (n.toNat / 4294967296)) (UInt32.ofNat (n.toNat % 4294967296)) = n := by
  have bound := n.toNat_lt
  apply UInt64.toNat.inj
  simp only [word64, UInt32.toNat_ofNat', UInt64.toNat_ofNat']
  omega

theorem bytes64_word64 (high low : UInt32) : bytes64 (word64 high low) = bytes32 high ++ bytes32 low := by
  have boundHigh := high.toNat_lt
  have boundLow := low.toNat_lt
  have upper : UInt32.ofNat ((word64 high low).toNat / 4294967296) = high := by
    apply UInt32.toNat.inj
    simp only [word64, UInt32.toNat_ofNat', UInt64.toNat_ofNat']
    omega
  have lower : UInt32.ofNat ((word64 high low).toNat % 4294967296) = low := by
    apply UInt32.toNat.inj
    simp only [word64, UInt32.toNat_ofNat', UInt64.toNat_ofNat']
    omega
  rw [bytes64, upper, lower]

@[simp]
theorem length_bytes16 (n : UInt16) : (bytes16 n).length = 2 := rfl

@[simp]
theorem length_bytes32 (n : UInt32) : (bytes32 n).length = 4 := rfl

/-- A length is written in two bytes exactly when it fits. -/
theorem length16_eq_ok {length : Nat} {written : Bytes} :
    length16 length = .ok written ↔ length < 65536 ∧ bytes16 (UInt16.ofNat length) = written := by
  unfold length16
  by_cases fits : length < 65536
  · rw [if_pos fits, Except.ok.injEq]
    exact ⟨fun same => ⟨fits, same⟩, fun both => both.2⟩
  · rw [if_neg fits]
    exact ⟨nofun, fun both => absurd both.1 fits⟩

/-- A length is written in four bytes exactly when it fits. -/
theorem length32_eq_ok {length : Nat} {written : Bytes} :
    length32 length = .ok written ↔ length < 4294967296 ∧ bytes32 (UInt32.ofNat length) = written := by
  unfold length32
  by_cases fits : length < 4294967296
  · rw [if_pos fits, Except.ok.injEq]
    exact ⟨fun same => ⟨fits, same⟩, fun both => both.2⟩
  · rw [if_neg fits]
    exact ⟨nofun, fun both => absurd both.1 fits⟩

/-- A table is written if the number of its values fits and each of them is written. -/
theorem table_eq_ok {α : Type} {write : α → Except Fault Bytes} {values : List α} {written : Bytes} :
    table write values = .ok written ↔ values.length < 65536 ∧
      ∃ contents, concat write values = .ok contents ∧ bytes16 (UInt16.ofNat values.length) ++ contents = written := by
  rw [table, bind_eq_ok]
  constructor
  · rintro ⟨counted, counts, done⟩
    obtain ⟨fits, rfl⟩ := length16_eq_ok.mp counts
    obtain ⟨contents, joins, joined⟩ := bind_eq_ok.mp done
    exact ⟨fits, contents, joins, pure_eq_ok.mp joined⟩
  · rintro ⟨fits, contents, joins, rfl⟩
    exact ⟨_, length16_eq_ok.mpr ⟨fits, rfl⟩, bind_eq_ok.mpr ⟨contents, joins, rfl⟩⟩

end Bytes

namespace Reader

variable {α : Type}

/-! ### Numbers and blocks -/

theorem u8_eq_ok {bytes rest : Bytes} {n : UInt8} : u8 bytes = .ok (n, rest) ↔ bytes = n :: rest := by
  match bytes with
  | [] => exact ⟨nofun, nofun⟩
  | a :: tail =>
    have step : u8 (a :: tail) = .ok (a, tail) := rfl
    rw [step, Except.ok.injEq, Prod.mk.injEq, List.cons.injEq]

theorem u16_eq_ok {bytes rest : Bytes} {n : UInt16} :
    u16 bytes = .ok (n, rest) ↔ bytes = Bytes.bytes16 n ++ rest := by
  match bytes with
  | [] => exact ⟨nofun, nofun⟩
  | [_] => exact ⟨nofun, nofun⟩
  | a :: b :: tail =>
    have step : u16 (a :: b :: tail) = .ok (Bytes.word16 a b, tail) := rfl
    rw [step, Except.ok.injEq, Prod.mk.injEq]
    constructor
    · rintro ⟨rfl, rfl⟩
      rw [Bytes.bytes16_word16]
      rfl
    · intro same
      injection same with first same
      injection same with second same
      subst first second
      exact ⟨Bytes.word16_bytes16 n, same⟩

theorem u32_eq_ok {bytes rest : Bytes} {n : UInt32} :
    u32 bytes = .ok (n, rest) ↔ bytes = Bytes.bytes32 n ++ rest := by
  match bytes with
  | [] | [_] | [_, _] | [_, _, _] => exact ⟨nofun, nofun⟩
  | a :: b :: c :: d :: tail =>
    have step : u32 (a :: b :: c :: d :: tail) = .ok (Bytes.word32 a b c d, tail) := rfl
    rw [step, Except.ok.injEq, Prod.mk.injEq]
    constructor
    · rintro ⟨rfl, rfl⟩
      rw [Bytes.bytes32_word32]
      rfl
    · intro same
      injection same with first same
      injection same with second same
      injection same with third same
      injection same with fourth same
      subst first second third fourth
      exact ⟨Bytes.word32_bytes32 n, same⟩

theorem u64_eq_ok {bytes rest : Bytes} {n : UInt64} :
    u64 bytes = .ok (n, rest) ↔ bytes = Bytes.bytes64 n ++ rest := by
  match bytes with
  | [] | [_] | [_, _] | [_, _, _] | [_, _, _, _] | [_, _, _, _, _] | [_, _, _, _, _, _]
  | [_, _, _, _, _, _, _] => exact ⟨nofun, nofun⟩
  | a :: b :: c :: d :: e :: f :: g :: h :: tail =>
    have step : u64 (a :: b :: c :: d :: e :: f :: g :: h :: tail) =
        .ok (Bytes.word64 (Bytes.word32 a b c d) (Bytes.word32 e f g h), tail) := rfl
    rw [step, Except.ok.injEq, Prod.mk.injEq]
    constructor
    · rintro ⟨rfl, rfl⟩
      rw [Bytes.bytes64_word64, Bytes.bytes32_word32, Bytes.bytes32_word32]
      rfl
    · intro same
      have upper : u32 (a :: b :: c :: d :: e :: f :: g :: h :: tail) =
          .ok (Bytes.word32 a b c d, e :: f :: g :: h :: tail) := rfl
      have lower : u32 (e :: f :: g :: h :: tail) = .ok (Bytes.word32 e f g h, tail) := rfl
      rw [u32_eq_ok, same] at upper
      rw [Bytes.bytes64, List.append_assoc] at upper
      obtain ⟨high, upper⟩ := List.append_inj upper rfl
      rw [u32_eq_ok, ← upper] at lower
      obtain ⟨low, lower⟩ := List.append_inj lower rfl
      refine ⟨?_, lower.symm⟩
      rw [← Bytes.bytes32_injective high, ← Bytes.bytes32_injective low]
      exact Bytes.word64_halves n

theorem block_eq_ok {bytes taken rest : Bytes} {length : Nat} :
    block length bytes = .ok (taken, rest) ↔ taken.length = length ∧ bytes = taken ++ rest := by
  unfold block
  by_cases enough : (bytes.take length).length = length
  · simp only [if_pos enough, Except.ok.injEq, Prod.mk.injEq]
    constructor
    · rintro ⟨rfl, rfl⟩
      exact ⟨enough, (List.take_append_drop length bytes).symm⟩
    · rintro ⟨rfl, rfl⟩
      exact ⟨List.take_left, List.drop_left⟩
  · simp only [if_neg enough]
    constructor
    · intro done
      cases done
    · rintro ⟨rfl, rfl⟩
      rw [List.take_left] at enough
      exact absurd rfl enough

theorem check_eq_ok {outcome : Except Fault α} {bytes rest : Bytes} {value : α} :
    check outcome bytes = .ok (value, rest) ↔ outcome = .ok value ∧ bytes = rest := by
  cases outcome with
  | error cause => exact ⟨nofun, fun both => nomatch both.1⟩
  | ok found =>
    have step : check (.ok found) bytes = .ok (found, bytes) := rfl
    rw [step, Except.ok.injEq, Prod.mk.injEq, Except.ok.injEq]

theorem fail_ne_ok {cause : Fault} {bytes : Bytes} {result : α × Bytes} :
    fail cause bytes ≠ .ok result :=
  fun done => nomatch done

/-! ### Inversion -/

/-- The reader reads a value exactly from the bytes written for it, if the value is valid. -/
def Inverts (reader : Reader α) (write : α → Except Fault Bytes) (valid : α → Prop) : Prop :=
  ∀ bytes value rest, reader bytes = .ok (value, rest) ↔
    valid value ∧ ∃ written, write value = .ok written ∧ bytes = written ++ rest

variable {reader : Reader α} {write : α → Except Fault Bytes} {valid : α → Prop}

/-- Many values are read from what is written for them, one after the other. -/
theorem Inverts.manyFrom (inverts : Inverts reader write valid) (count : Nat) (found : List α)
    (bytes : Bytes) (values : List α) (rest : Bytes) :
    Reader.manyFrom reader found count bytes = .ok (values, rest) ↔
      ∃ later, values = found.reverse ++ later ∧ later.length = count ∧ (∀ value ∈ later, valid value) ∧
        ∃ written, Bytes.concat write later = .ok written ∧ bytes = written ++ rest := by
  induction count generalizing found bytes with
  | zero =>
    rw [Reader.manyFrom, run_pure_eq_ok]
    constructor
    · rintro ⟨rfl, rfl⟩
      exact ⟨[], (List.append_nil _).symm, rfl, fun _ member => absurd member List.not_mem_nil, [], rfl, rfl⟩
    · rintro ⟨later, rfl, none, -, written, done, rfl⟩
      obtain rfl := List.length_eq_zero_iff.mp none
      cases done
      exact ⟨(List.append_nil _).symm, rfl⟩
  | succ count ih =>
    rw [Reader.manyFrom, run_bind_eq_ok]
    constructor
    · rintro ⟨value, between, first, others⟩
      obtain ⟨good, written, done, rfl⟩ := (inverts _ _ _).mp first
      obtain ⟨later, rfl, length, goods, writtens, dones, rfl⟩ := (ih (value :: found) between).mp others
      obtain ⟨parts, each, joined⟩ := bind_eq_ok.mp dones
      cases joined
      refine ⟨value :: later, by simp, by simp [length], ?_, written ++ parts.flatten, ?_, ?_⟩
      · exact List.forall_mem_cons.mpr ⟨good, goods⟩
      · rw [Bytes.concat, bind_eq_ok]
        refine ⟨written :: parts, ?_, rfl⟩
        rw [List.mapM_cons, done, each]
        rfl
      · rw [List.append_assoc]
    · rintro ⟨later, rfl, length, goods, writtens, dones, rfl⟩
      obtain ⟨value, later, rfl⟩ := List.exists_cons_of_length_eq_add_one length
      obtain ⟨parts, each, joined⟩ := bind_eq_ok.mp dones
      cases joined
      rw [List.mapM_cons] at each
      obtain ⟨written, done, others⟩ := bind_eq_ok.mp each
      obtain ⟨parts, mapped, joined⟩ := bind_eq_ok.mp others
      cases joined
      refine ⟨value, parts.flatten ++ rest, (inverts _ _ _).mpr ⟨goods value List.mem_cons_self, written, done, ?_⟩,
        (ih _ _).mpr ⟨later, by simp, by simpa using length,
          fun other member => goods other (List.mem_cons_of_mem _ member), parts.flatten, ?_, rfl⟩⟩
      · rw [List.flatten_cons, List.append_assoc]
      · rw [Bytes.concat, mapped]
        rfl

/-- **Tables.** A table is read from the number of its values and what is written for them. -/
theorem Inverts.table (inverts : Inverts reader write valid) :
    Inverts (Reader.table reader) (Bytes.table write) (fun values => ∀ value ∈ values, valid value) := by
  intro bytes values rest
  rw [Reader.table, run_bind_eq_ok]
  constructor
  · rintro ⟨count, between, first, others⟩
    obtain rfl := u16_eq_ok.mp first
    obtain ⟨later, same, length, goods, written, done, rfl⟩ := (inverts.manyFrom _ _ _ _ _).mp others
    rw [List.reverse_nil, List.nil_append] at same
    subst same
    refine ⟨goods, Bytes.bytes16 count ++ written, ?_, by rw [List.append_assoc]⟩
    rw [Bytes.table_eq_ok, length, UInt16.ofNat_toNat]
    exact ⟨count.toNat_lt, written, done, rfl⟩
  · rintro ⟨goods, written, done, rfl⟩
    obtain ⟨fits, contents, joins, rfl⟩ := Bytes.table_eq_ok.mp done
    refine ⟨UInt16.ofNat values.length, contents ++ rest, u16_eq_ok.mpr (by rw [List.append_assoc]), ?_⟩
    refine (inverts.manyFrom _ _ _ _ _).mpr ⟨values, rfl, ?_, goods, contents, joins, rfl⟩
    exact (UInt16.toNat_ofNat_of_lt' fits).symm

end Reader

end JarRename
