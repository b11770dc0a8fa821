import JarRename.Code.Scan
import JarRename.Proofs.Outcome
import JarRename.Proofs.Reading

/-!
**Instructions.**

An instruction is an opcode and its operands. Most opcodes have operands of one length; the chart lists them in order.
The operands of a switch are as long as their own numbers say and start at a multiple of four from the start of the
code; a wide instruction holds the opcode that it widens. The scan gives an instruction exactly the shape that it has,
wherever it stands and whatever follows it.

* `Instruction`: complete instructions, with their bytes (`bytes`) and their index of the pool (`index?`);
* `chart`, `wideChart`: the opcodes whose operands have one length;
* `Instruction.AlignedAt`: an instruction whose padding is that of its place;
* `shape_of_aligned`, `stands_of_shape`: the shape of an instruction, and the instruction of a shape.
-/

namespace JarRename.Code

/-! ### Opcodes with operands of one length -/

/-- Operands of one length. -/
inductive Layout where
  /-- So many bytes, none of which is an index of the pool. -/
  | bytes (count : Nat)
  /-- An index of the pool in two bytes, and so many bytes behind it. -/
  | index (behind : Nat)
  deriving DecidableEq

/-- Opcodes from `first` to `last`, which all have operands of one layout. -/
structure Row where
  first : Nat
  last : Nat
  layout : Layout

/-- The opcodes whose operands have one length, in order. -/
def chart : List Row :=
  [⟨0x00, 0x0f, .bytes 0⟩, -- nop to dconst_1
    ⟨0x10, 0x10, .bytes 1⟩, -- bipush
    ⟨0x11, 0x11, .bytes 2⟩, -- sipush
    ⟨0x13, 0x14, .index 0⟩, -- ldc_w, ldc2_w
    ⟨0x15, 0x19, .bytes 1⟩, -- iload to aload
    ⟨0x1a, 0x35, .bytes 0⟩, -- iload_0 to saload
    ⟨0x36, 0x3a, .bytes 1⟩, -- istore to astore
    ⟨0x3b, 0x83, .bytes 0⟩, -- istore_0 to lxor
    ⟨0x84, 0x84, .bytes 2⟩, -- iinc
    ⟨0x85, 0x98, .bytes 0⟩, -- i2l to dcmpg
    ⟨0x99, 0xa8, .bytes 2⟩, -- ifeq to jsr
    ⟨0xa9, 0xa9, .bytes 1⟩, -- ret
    ⟨0xac, 0xb1, .bytes 0⟩, -- ireturn to return
    ⟨0xb2, 0xb8, .index 0⟩, -- getstatic to invokestatic
    ⟨0xb9, 0xba, .index 2⟩, -- invokeinterface, invokedynamic
    ⟨0xbb, 0xbb, .index 0⟩, -- new
    ⟨0xbc, 0xbc, .bytes 1⟩, -- newarray
    ⟨0xbd, 0xbd, .index 0⟩, -- anewarray
    ⟨0xbe, 0xbf, .bytes 0⟩, -- arraylength, athrow
    ⟨0xc0, 0xc1, .index 0⟩, -- checkcast, instanceof
    ⟨0xc2, 0xc3, .bytes 0⟩, -- monitorenter, monitorexit
    ⟨0xc5, 0xc5, .index 1⟩, -- multianewarray
    ⟨0xc6, 0xc7, .bytes 2⟩, -- ifnull, ifnonnull
    ⟨0xc8, 0xc9, .bytes 4⟩, -- goto_w, jsr_w
    ⟨0xca, 0xca, .bytes 0⟩] -- breakpoint

/-- The opcodes that can be widened, with the operands that their wide forms have. -/
def wideChart : List Row :=
  [⟨0x15, 0x19, .bytes 2⟩, -- iload to aload
    ⟨0x36, 0x3a, .bytes 2⟩, -- istore to astore
    ⟨0x84, 0x84, .bytes 4⟩, -- iinc
    ⟨0xa9, 0xa9, .bytes 2⟩] -- ret

/-- The layout that a chart gives for an opcode. -/
def layoutIn? (rows : List Row) (opcode : UInt8) : Option Layout :=
  (rows.find? fun row => row.first ≤ opcode.toNat && opcode.toNat ≤ row.last).map Row.layout

/-- What holds for all numbers of a byte holds for all bytes. -/
theorem forall_byte {holds : UInt8 → Prop} (each : ∀ n : Fin 256, holds (UInt8.ofNat n)) (byte : UInt8) :
    holds byte := by
  have one := each ⟨byte.toNat, byte.toNat_lt⟩
  rwa [UInt8.ofNat_toNat] at one

/-- The size of operands without an index. -/
def Layout.plainSize? : Layout → Option Nat
  | bytes count => some count
  | index _ => none

/-- The size of operands with an index. -/
def Layout.indexedSize? : Layout → Option Nat
  | bytes _ => none
  | index behind => some (2 + behind)

theorem plainSize?_eq (opcode : UInt8) : plainSize? opcode = (layoutIn? chart opcode).bind Layout.plainSize? := by
  revert opcode
  refine forall_byte ?_
  decide +kernel

theorem indexedSize?_eq (opcode : UInt8) :
    indexedSize? opcode = (layoutIn? chart opcode).bind Layout.indexedSize? := by
  revert opcode
  refine forall_byte ?_
  decide +kernel

theorem widenedSize?_eq (opcode : UInt8) :
    widenedSize? opcode = (layoutIn? wideChart opcode).bind Layout.plainSize? := by
  revert opcode
  refine forall_byte ?_
  decide +kernel

theorem widenedSize?_eq_some {opcode : UInt8} {size : Nat} :
    widenedSize? opcode = some size ↔ layoutIn? wideChart opcode = some (.bytes size) := by
  rw [widenedSize?_eq]
  cases layoutIn? wideChart opcode with
  | none => exact ⟨nofun, nofun⟩
  | some layout =>
    cases layout with
    | bytes count => simp [Layout.plainSize?]
    | index behind => exact ⟨nofun, nofun⟩

/-! ### Numbers among operands -/

variable {pc : Nat} {after : Bytes}

/-- The signed number in four bytes. -/
def number (word : UInt32) : Int :=
  Bytes.signed 32 word.toNat

theorem number_eq (word : UInt32) :
    number word = if word.toNat < 0x80000000 then (word.toNat : Int) else (word.toNat : Int) - 0x100000000 := rfl

theorem number_bounds (word : UInt32) : -0x80000000 ≤ number word ∧ number word < 0x80000000 := by
  have bound := word.toNat_lt
  rw [number_eq]
  split_ifs <;> omega

/-- A word whose number is not negative is the word of that number. -/
theorem number_eq_natCast {word : UInt32} {count : Nat} :
    number word = count ↔ word = UInt32.ofNat count ∧ count < 0x80000000 := by
  have bound := word.toNat_lt
  rw [number_eq]
  constructor
  · intro same
    split_ifs at same with small
    · have equal : word.toNat = count := by omega
      exact ⟨by rw [← equal, UInt32.ofNat_toNat], by omega⟩
    · omega
  · rintro ⟨rfl, countable⟩
    rw [UInt32.toNat_ofNat', Nat.mod_eq_of_lt (by omega), if_pos countable]

theorem byteAt_eq_ok {distance : Nat} {byte : UInt8} :
    byteAt pc after distance = .ok byte ↔ after[distance]? = some byte := by
  unfold byteAt
  cases after[distance]? with
  | none => exact ⟨nofun, nofun⟩
  | some found => rw [Except.ok.injEq, Option.some.injEq]

/-- An index is read from its two bytes. -/
theorem indexAt_eq_ok {index : Index} :
    indexAt pc after 0 = .ok index ↔ ∃ behind, after = Bytes.bytes16 index ++ behind := by
  constructor
  · intro read
    obtain ⟨a, first, read⟩ := bind_eq_ok.mp read
    obtain ⟨b, second, read⟩ := bind_eq_ok.mp read
    rw [byteAt_eq_ok] at first second
    rw [← pure_eq_ok.mp read, Bytes.bytes16_word16]
    match after with
    | [] => cases first
    | [_] => cases second
    | _ :: _ :: behind =>
      cases first
      cases second
      exact ⟨behind, rfl⟩
  · rintro ⟨behind, rfl⟩
    refine bind_eq_ok.mpr ⟨_, byteAt_eq_ok.mpr rfl, bind_eq_ok.mpr ⟨_, byteAt_eq_ok.mpr rfl, ?_⟩⟩
    rw [Bytes.word16_bytes16]
    rfl

/-- Four bytes are those of a word. -/
theorem exists_word {bytes : Bytes} (enough : 4 ≤ bytes.length) :
    ∃ word behind, bytes = Bytes.bytes32 word ++ behind := by
  match bytes with
  | a :: b :: c :: d :: behind => exact ⟨Bytes.word32 a b c d, behind, by rw [Bytes.bytes32_word32]; rfl⟩
  | [] | [_] | [_, _] | [_, _, _] => simp at enough

/-- A number is read from its four bytes. -/
theorem numberAt_append {front behind : Bytes} {word : UInt32} {distance : Nat} (long : front.length = distance) :
    numberAt pc (front ++ (Bytes.bytes32 word ++ behind)) distance = .ok (number word) := by
  have found : ∀ k : Nat,
      (front ++ (Bytes.bytes32 word ++ behind))[distance + k]? = (Bytes.bytes32 word ++ behind)[k]? := by
    intro k
    rw [List.getElem?_append_right (by omega), ← long, Nat.add_sub_cancel_left]
  refine bind_eq_ok.mpr ⟨_, byteAt_eq_ok.mpr (found 0), ?_⟩
  refine bind_eq_ok.mpr ⟨_, byteAt_eq_ok.mpr (found 1), ?_⟩
  refine bind_eq_ok.mpr ⟨_, byteAt_eq_ok.mpr (found 2), ?_⟩
  refine bind_eq_ok.mpr ⟨_, byteAt_eq_ok.mpr (found 3), ?_⟩
  rw [Bytes.word32_bytes32]
  rfl

theorem exists_of_numberAt {distance : Nat} {value : Int} (read : numberAt pc after distance = .ok value) :
    ∃ word, value = number word := by
  obtain ⟨a, -, rest⟩ := bind_eq_ok.mp read
  obtain ⟨b, -, rest⟩ := bind_eq_ok.mp rest
  obtain ⟨c, -, rest⟩ := bind_eq_ok.mp rest
  obtain ⟨d, -, rest⟩ := bind_eq_ok.mp rest
  exact ⟨Bytes.word32 a b c d, (pure_eq_ok.mp rest).symm⟩

/-- Bytes that are long enough for a number of items start with those of items. -/
theorem exists_items {α : Type} {item : α → Bytes} {size : Nat}
    (one : ∀ bytes : Bytes, size ≤ bytes.length → ∃ value behind, bytes = item value ++ behind)
    (sized : ∀ value, (item value).length = size) (count : Nat) {bytes : Bytes} (enough : size * count ≤ bytes.length) :
    ∃ (values : List α) (behind : Bytes), values.length = count ∧ bytes = values.flatMap item ++ behind := by
  induction count generalizing bytes with
  | zero => exact ⟨[], bytes, rfl, rfl⟩
  | succ count ih =>
    rw [Nat.mul_succ] at enough
    obtain ⟨value, later, rfl⟩ := one bytes (by omega)
    rw [List.length_append, sized] at enough
    have left : size * count ≤ later.length := by omega
    obtain ⟨values, behind, many, rfl⟩ := ih left
    exact ⟨value :: values, behind, by rw [List.length_cons, many], by rw [List.flatMap_cons, List.append_assoc]⟩

theorem length_items {α : Type} {item : α → Bytes} {size : Nat} (sized : ∀ value, (item value).length = size)
    (values : List α) : (values.flatMap item).length = size * values.length := by
  induction values with
  | nil => rfl
  | cons value values ih =>
    rw [List.flatMap_cons, List.length_append, sized, ih, List.length_cons, Nat.mul_succ, Nat.add_comm]

/-! ### Instructions -/

/-- A complete instruction. -/
inductive Instruction where
  /-- An opcode whose operands hold no index of the pool. -/
  | plain (opcode : UInt8) (operands : Bytes) (listed : layoutIn? chart opcode = some (.bytes operands.length))
  /-- An opcode whose operands start with an index of the pool. -/
  | indexed (opcode : UInt8) (index : Index) (behind : Bytes)
      (listed : layoutIn? chart opcode = some (.index behind.length))
  /-- The opcode `ldc`, whose operand is an index of the pool in one byte. -/
  | load (index : UInt8)
  /-- The opcode `wide` in front of an opcode that can be widened. -/
  | wide (widened : UInt8) (operands : Bytes) (listed : layoutIn? wideChart widened = some (.bytes operands.length))
  /-- The opcode `tableswitch`, with a target for each number from `low` to `high`. -/
  | table (gap : Bytes) (otherwise low high : UInt32) (targets : List UInt32) (ordered : number low ≤ number high)
      (complete : (targets.length : Int) = number high - number low + 1)
  /-- The opcode `lookupswitch`, with a target for each number that is listed. -/
  | lookup (gap : Bytes) (otherwise : UInt32) (pairs : List (UInt32 × UInt32)) (countable : pairs.length < 0x80000000)

namespace Instruction

/-- The opcode of an instruction. -/
def opcode : Instruction → UInt8
  | plain opcode _ _ | indexed opcode _ _ _ => opcode
  | load _ => 0x12
  | wide _ _ _ => 0xc4
  | table _ _ _ _ _ _ _ => 0xaa
  | lookup _ _ _ _ => 0xab

/-- The bytes of a number and its target. -/
def pairBytes (pair : UInt32 × UInt32) : Bytes :=
  Bytes.bytes32 pair.1 ++ Bytes.bytes32 pair.2

/-- The bytes behind the opcode of an instruction. -/
def operands : Instruction → Bytes
  | plain _ operands _ => operands
  | indexed _ index behind _ => Bytes.bytes16 index ++ behind
  | load index => [index]
  | wide widened operands _ => widened :: operands
  | table gap otherwise low high targets _ _ =>
    gap ++ (Bytes.bytes32 otherwise ++ (Bytes.bytes32 low ++ (Bytes.bytes32 high ++ targets.flatMap Bytes.bytes32)))
  | lookup gap otherwise pairs _ =>
    gap ++ (Bytes.bytes32 otherwise ++ (Bytes.bytes32 (UInt32.ofNat pairs.length) ++ pairs.flatMap pairBytes))

/-- The bytes of an instruction. -/
def bytes (instruction : Instruction) : Bytes :=
  instruction.opcode :: instruction.operands

/-- The index of the pool in an instruction, if it has one. -/
def index? : Instruction → Option Index
  | indexed _ index _ _ => some index
  | load index => some index.toUInt16
  | plain _ _ _ | wide _ _ _ | table _ _ _ _ _ _ _ | lookup _ _ _ _ => none

/-- The bytes between the opcode of a switch and the next multiple of four from the start of the code. -/
def IsGap (pc : Nat) (gap : Bytes) : Prop :=
  gap.length < 4 ∧ (pc + 1 + gap.length) % 4 = 0

/-- The instruction can stand at `pc`. -/
def AlignedAt (pc : Nat) : Instruction → Prop
  | table gap _ _ _ _ _ _ | lookup gap _ _ _ => IsGap pc gap
  | plain _ _ _ | indexed _ _ _ _ | load _ | wide _ _ _ => True

theorem isGap_iff {gap : Bytes} : IsGap pc gap ↔ gap.length = padding pc := by
  unfold IsGap padding
  omega

theorem length_pairBytes (pair : UInt32 × UInt32) : (pairBytes pair).length = 8 := rfl

theorem exists_pair {bytes : Bytes} (enough : 8 ≤ bytes.length) : ∃ pair behind, bytes = pairBytes pair ++ behind := by
  obtain ⟨first, middle, rfl⟩ := exists_word (show 4 ≤ bytes.length by omega)
  rw [List.length_append, Bytes.length_bytes32] at enough
  obtain ⟨second, behind, rfl⟩ := exists_word (show 4 ≤ middle.length by omega)
  exact ⟨(first, second), behind, by rw [pairBytes, List.append_assoc]⟩

end Instruction

/-! ### The shape of an instruction -/

/-- The shape of operands of one length. -/
def Layout.shape (pc : Nat) (after : Bytes) : Layout → Except Fault Shape
  | bytes count => .ok { size := count }
  | index behind => do
    let index ← indexAt pc after 0
    return { size := 2 + behind, index := some index }

/-- The opcodes whose operands have no length of their own. -/
def special : List UInt8 :=
  [0x12, 0xaa, 0xab, 0xc4]

theorem not_special_of_listed {opcode : UInt8} {layout : Layout} (listed : layoutIn? chart opcode = some layout) :
    opcode ∉ special := by
  intro member
  have unlisted : ∀ opcode ∈ special, layoutIn? chart opcode = none := by decide +kernel
  rw [unlisted opcode member] at listed
  cases listed

/-- All other opcodes have the shape that the chart gives. -/
theorem shape_of_not_special {opcode : UInt8} (ordinary : opcode ∉ special) :
    shape pc opcode after =
      match layoutIn? chart opcode with
      | some layout => layout.shape pc after
      | none => .error (.unknownOpcode opcode) := by
  simp only [special, List.mem_cons, List.not_mem_nil, or_false, not_or] at ordinary
  obtain ⟨notLoad, notTable, notLookup, notWide⟩ := ordinary
  rw [shape, if_neg notLoad, if_neg notTable, if_neg notLookup, if_neg notWide, indexedSize?_eq, plainSize?_eq]
  cases layoutIn? chart opcode with
  | none => rfl
  | some layout => cases layout <;> rfl

theorem shape_of_listed {opcode : UInt8} {layout : Layout} (listed : layoutIn? chart opcode = some layout) :
    shape pc opcode after = layout.shape pc after := by
  rw [shape_of_not_special (not_special_of_listed listed), listed]

/-- What a shape is read from: the chart, or one of the four opcodes that it does not list. -/
theorem shape_cases {opcode : UInt8} {found : Shape} (read : shape pc opcode after = .ok found) :
    (∃ layout, layoutIn? chart opcode = some layout ∧ layout.shape pc after = .ok found) ∨
    (∃ index behind, opcode = 0x12 ∧ after = index :: behind ∧ found = { size := 1, index := some index.toUInt16 }) ∨
    (opcode = 0xaa ∧ tableShape pc after = .ok found) ∨ (opcode = 0xab ∧ lookupShape pc after = .ok found) ∨
    (opcode = 0xc4 ∧ wideShape pc after = .ok found) := by
  by_cases ordinary : opcode ∉ special
  · rw [shape_of_not_special ordinary] at read
    cases listed : layoutIn? chart opcode with
    | none =>
      rw [listed] at read
      cases read
    | some layout =>
      rw [listed] at read
      exact .inl ⟨layout, rfl, read⟩
  · simp only [special, List.mem_cons, List.not_mem_nil, or_false, not_not] at ordinary
    rcases ordinary with rfl | rfl | rfl | rfl
    · obtain ⟨index, indexRead, read⟩ := bind_eq_ok.mp read
      cases after with
      | nil => cases indexRead
      | cons first behind =>
        cases indexRead
        exact .inr (.inl ⟨index, behind, rfl, rfl, (pure_eq_ok.mp read).symm⟩)
    · exact .inr (.inr (.inl ⟨rfl, read⟩))
    · exact .inr (.inr (.inr (.inl ⟨rfl, read⟩)))
    · exact .inr (.inr (.inr (.inr ⟨rfl, read⟩)))

open Instruction

section Switch

variable {gap behind : Bytes} {otherwise first second : UInt32}

/-- The first number of a switch, behind its default target. -/
theorem numberAt_first (isGap : IsGap pc gap) :
    numberAt pc (gap ++ (Bytes.bytes32 otherwise ++ (Bytes.bytes32 first ++ behind))) (padding pc + 4) =
      .ok (number first) := by
  rw [← List.append_assoc gap]
  exact numberAt_append (by rw [List.length_append, isGap_iff.mp isGap, Bytes.length_bytes32])

theorem numberAt_second (isGap : IsGap pc gap) :
    numberAt pc (gap ++ (Bytes.bytes32 otherwise ++ (Bytes.bytes32 first ++ (Bytes.bytes32 second ++ behind))))
      (padding pc + 8) = .ok (number second) := by
  rw [← List.append_assoc gap, ← List.append_assoc (gap ++ _)]
  exact numberAt_append (by
    rw [List.length_append, List.length_append, isGap_iff.mp isGap, Bytes.length_bytes32, Bytes.length_bytes32])

/-- Bytes that are long enough for a switch start with its padding, its default target and its first number. -/
theorem exists_switch (enough : padding pc + 8 ≤ after.length) : ∃ gap otherwise first behind, IsGap pc gap ∧
    after = gap ++ (Bytes.bytes32 otherwise ++ (Bytes.bytes32 first ++ behind)) := by
  have front : 4 ≤ (after.drop (padding pc)).length := by
    rw [List.length_drop]
    omega
  obtain ⟨otherwise, middle, found⟩ := exists_word front
  have split : after = after.take (padding pc) ++ (Bytes.bytes32 otherwise ++ middle) := by
    rw [← found, List.take_append_drop]
  have long : (after.take (padding pc)).length = padding pc := by
    rw [List.length_take]
    omega
  have more : 4 ≤ middle.length := by
    rw [split, List.length_append, List.length_append, long, Bytes.length_bytes32] at enough
    omega
  obtain ⟨first, behind, rfl⟩ := exists_word more
  exact ⟨_, otherwise, first, behind, isGap_iff.mpr long, split⟩

/-- A table switch has the shape that its numbers give. -/
theorem tableShape_append (isGap : IsGap pc gap) (ordered : number first ≤ number second) :
    tableShape pc (gap ++ (Bytes.bytes32 otherwise ++ (Bytes.bytes32 first ++ (Bytes.bytes32 second ++ behind)))) =
      .ok { size := padding pc + 12 + 4 * (number second - number first + 1).toNat } := by
  refine bind_eq_ok.mpr ⟨_, numberAt_first isGap, bind_eq_ok.mpr ⟨_, numberAt_second isGap, ?_⟩⟩
  rw [if_neg (Int.not_lt.mpr ordered)]
  rfl

theorem lookupShape_append {count : Nat} (isGap : IsGap pc gap) (countable : count < 0x80000000) :
    lookupShape pc (gap ++ (Bytes.bytes32 otherwise ++ (Bytes.bytes32 (UInt32.ofNat count) ++ behind))) =
      .ok { size := padding pc + 8 + 8 * count } := by
  refine bind_eq_ok.mpr ⟨_, numberAt_first isGap, ?_⟩
  rw [number_eq_natCast.mpr ⟨rfl, countable⟩, if_neg (by omega), Int.toNat_natCast]
  rfl

end Switch

/-- **The shape of an instruction** is what it has behind its opcode, whatever follows it. -/
theorem shape_of_aligned {instruction : Instruction} (aligned : instruction.AlignedAt pc) (rest : Bytes) :
    shape pc instruction.opcode (instruction.operands ++ rest) =
      .ok { size := instruction.operands.length, index := instruction.index? } := by
  cases instruction with
  | plain opcode operands listed => exact shape_of_listed listed
  | indexed opcode index behind listed =>
    have read : indexAt pc (Bytes.bytes16 index ++ behind ++ rest) 0 = .ok index :=
      indexAt_eq_ok.mpr ⟨behind ++ rest, List.append_assoc _ _ _⟩
    refine (shape_of_listed listed).trans (bind_eq_ok.mpr ⟨index, read, ?_⟩)
    rw [Instruction.operands, List.length_append, Bytes.length_bytes16]
    rfl
  | load index => rfl
  | wide widened operands listed =>
    have sized := widenedSize?_eq_some.mpr listed
    show wideShape pc (widened :: (operands ++ rest)) = _
    refine bind_eq_ok.mpr ⟨widened, rfl, ?_⟩
    rw [sized, Instruction.operands, List.length_cons, Nat.add_comm]
    rfl
  | table gap otherwise low high targets ordered complete =>
    have count : (number high - number low + 1).toNat = targets.length := by omega
    have long := isGap_iff.mp aligned
    have size : (table gap otherwise low high targets ordered complete).operands.length =
        padding pc + 12 + 4 * targets.length := by
      simp only [Instruction.operands, List.length_append, Bytes.length_bytes32, length_items Bytes.length_bytes32,
        long]
      omega
    show tableShape pc _ = _
    rw [size, Instruction.operands]
    simp only [List.append_assoc]
    rw [tableShape_append aligned ordered, count]
    rfl
  | lookup gap otherwise pairs countable =>
    have long := isGap_iff.mp aligned
    have size : (lookup gap otherwise pairs countable).operands.length = padding pc + 8 + 8 * pairs.length := by
      simp only [Instruction.operands, List.length_append, Bytes.length_bytes32, length_items length_pairBytes, long]
      omega
    show lookupShape pc _ = _
    rw [size, Instruction.operands]
    simp only [List.append_assoc]
    rw [lookupShape_append aligned countable]
    rfl

/-! ### The instruction of a shape -/

/-- An instruction stands at `pc`, with an opcode and with operands at the front of the bytes that follow it. -/
def StandsAt (pc : Nat) (opcode : UInt8) (after : Bytes) : Prop :=
  ∃ (instruction : Instruction) (rest : Bytes), instruction.AlignedAt pc ∧ instruction.opcode = opcode ∧
    after = instruction.operands ++ rest

section Stands

variable {found : Shape}

theorem stands_of_tableShape (read : tableShape pc after = .ok found) (fits : found.size ≤ after.length) :
    StandsAt pc 0xaa after := by
  obtain ⟨low, lowRead, read⟩ := bind_eq_ok.mp read
  obtain ⟨high, highRead, read⟩ := bind_eq_ok.mp read
  split_ifs at read with backwards
  obtain rfl := pure_eq_ok.mp read
  dsimp only at fits
  obtain ⟨gap, otherwise, first, middle, isGap, rfl⟩ := exists_switch (show padding pc + 8 ≤ after.length by omega)
  simp only [List.length_append, Bytes.length_bytes32, isGap_iff.mp isGap] at fits
  obtain ⟨second, behind, rfl⟩ := exists_word (show 4 ≤ middle.length by omega)
  rw [numberAt_first isGap, Except.ok.injEq] at lowRead
  rw [numberAt_second isGap, Except.ok.injEq] at highRead
  subst lowRead highRead
  have room : 4 * (number second - number first + 1).toNat ≤ behind.length := by
    rw [List.length_append, Bytes.length_bytes32] at fits
    omega
  obtain ⟨targets, rest, count, rfl⟩ := exists_items (fun _ => exists_word) Bytes.length_bytes32 _ room
  refine ⟨.table gap otherwise first second targets (by omega) (by omega), rest, isGap, rfl, ?_⟩
  simp only [Instruction.operands, List.append_assoc]

theorem stands_of_lookupShape (read : lookupShape pc after = .ok found) (fits : found.size ≤ after.length) :
    StandsAt pc 0xab after := by
  obtain ⟨count, countRead, read⟩ := bind_eq_ok.mp read
  split_ifs at read with negative
  obtain rfl := pure_eq_ok.mp read
  dsimp only at fits
  obtain ⟨gap, otherwise, first, behind, isGap, rfl⟩ := exists_switch (show padding pc + 8 ≤ after.length by omega)
  simp only [List.length_append, Bytes.length_bytes32, isGap_iff.mp isGap] at fits
  rw [numberAt_first isGap, Except.ok.injEq] at countRead
  subst countRead
  have room : 8 * (number first).toNat ≤ behind.length := by omega
  obtain ⟨pairs, rest, many, rfl⟩ := exists_items (fun _ => exists_pair) length_pairBytes _ room
  obtain ⟨rfl, countable⟩ := number_eq_natCast.mp (show number first = pairs.length by omega)
  refine ⟨.lookup gap otherwise pairs countable, rest, isGap, rfl, ?_⟩
  simp only [Instruction.operands, List.append_assoc]

theorem stands_of_wideShape (read : wideShape pc after = .ok found) (fits : found.size ≤ after.length) :
    StandsAt pc 0xc4 after := by
  obtain ⟨widened, widenedRead, read⟩ := bind_eq_ok.mp read
  cases sized : widenedSize? widened with
  | none =>
    rw [sized] at read
    cases read
  | some size =>
    rw [sized] at read
    obtain rfl := pure_eq_ok.mp read
    cases after with
    | nil => cases widenedRead
    | cons first behind =>
      cases widenedRead
      have long : (behind.take size).length = size := by
        simp only [List.length_cons] at fits
        rw [List.length_take]
        omega
      refine ⟨.wide widened (behind.take size) ?_, behind.drop size, trivial, rfl, ?_⟩
      · rw [long]
        exact widenedSize?_eq_some.mp sized
      · rw [Instruction.operands, List.cons_append, List.take_append_drop]

theorem stands_of_layout {opcode : UInt8} {layout : Layout} (listed : layoutIn? chart opcode = some layout)
    (read : layout.shape pc after = .ok found) (fits : found.size ≤ after.length) : StandsAt pc opcode after := by
  cases layout with
  | bytes count =>
    cases read
    have long : (after.take count).length = count := List.length_take_of_le fits
    refine ⟨.plain opcode (after.take count) (by rw [long]; exact listed), after.drop count, trivial, rfl, ?_⟩
    exact (List.take_append_drop _ _).symm
  | index behind =>
    obtain ⟨index, indexRead, read⟩ := bind_eq_ok.mp read
    obtain rfl := pure_eq_ok.mp read
    obtain ⟨later, rfl⟩ := indexAt_eq_ok.mp indexRead
    have long : (later.take behind).length = behind := by
      rw [List.length_append, Bytes.length_bytes16] at fits
      exact List.length_take_of_le (Nat.le_of_add_le_add_left fits)
    refine ⟨.indexed opcode index (later.take behind) (by rw [long]; exact listed), later.drop behind, trivial, rfl, ?_⟩
    rw [Instruction.operands, List.append_assoc, List.take_append_drop]

/-- **The instruction of a shape.** Where the scan reads a shape and the bytes suffice for it, an instruction stands. -/
theorem stands_of_shape {opcode : UInt8} (read : shape pc opcode after = .ok found) (fits : found.size ≤ after.length) :
    StandsAt pc opcode after := by
  rcases shape_cases read with ⟨layout, listed, read⟩ | ⟨index, behind, rfl, rfl, -⟩ | ⟨rfl, read⟩ | ⟨rfl, read⟩ |
    ⟨rfl, read⟩
  · exact stands_of_layout listed read fits
  · exact ⟨.load index, behind, trivial, rfl, rfl⟩
  · exact stands_of_tableShape read fits
  · exact stands_of_lookupShape read fits
  · exact stands_of_wideShape read fits

end Stands

end JarRename.Code
