import JarRename.Proofs.Code.Instruction

/-!
**The scan decodes the code.**

Code is scanned exactly if it is instructions laid end to end from its start, each of which can stand at its place. The
operands found are the indices of the pool in these instructions, in their order. No number that the scan works with is
beyond 64 bits.

* `place`, `Laid`, `poolOperands`: instructions end to end, with their places and their operands;
* `operandsFrom_bytes`: one instruction scanned; `operandsFrom_eq_ok`: the whole scan, by induction over its run;
* `pairwise_poolOperands`: the operands come in the order of their places;
* `InRange`, `inRange_of_lt`: the numbers that the scan works with.
-/

namespace JarRename.Code

variable {pc : Nat} {code : Bytes} {found : List Operand}

/-! ### Instructions end to end -/

/-- Instructions end to end from `pc` on, with their places. -/
def place : Nat → List Instruction → List (Nat × Instruction)
  | _, [] => []
  | pc, instruction :: later => (pc, instruction) :: place (pc + instruction.bytes.length) later

/-- Instructions that can all stand where they are, end to end from `pc` on. -/
def Laid (pc : Nat) (program : List Instruction) : Prop :=
  ∀ placed ∈ place pc program, placed.2.AlignedAt placed.1

/-- The operand of the instruction at `pc` that is an index of the pool, if it has one. -/
def operandAt? (pc : Nat) (instruction : Instruction) : Option Operand :=
  instruction.index?.map fun index => { pc, opcode := instruction.opcode, index }

/-- The operands of instructions from `pc` on that are indices of the pool, in order. -/
def poolOperands (pc : Nat) (program : List Instruction) : List Operand :=
  (place pc program).filterMap fun placed => operandAt? placed.1 placed.2

theorem laid_cons {instruction : Instruction} {later : List Instruction} :
    Laid pc (instruction :: later) ↔ instruction.AlignedAt pc ∧ Laid (pc + instruction.bytes.length) later :=
  List.forall_mem_cons

theorem poolOperands_cons (instruction : Instruction) (later : List Instruction) :
    poolOperands pc (instruction :: later) =
      (operandAt? pc instruction).toList ++ poolOperands (pc + instruction.bytes.length) later := by
  unfold poolOperands
  rw [place, List.filterMap_cons]
  cases operandAt? pc instruction <;> rfl

/-! ### The scan -/

theorem reverse_found (operand? : Option Operand) (found : List Operand) :
    (operand?.toList ++ found).reverse = found.reverse ++ operand?.toList := by
  cases operand? with
  | none => exact (List.append_nil _).symm
  | some operand => exact List.reverse_cons

/-- **One instruction scanned**: the scan goes on behind it, with its operand if it has one. -/
theorem operandsFrom_bytes {instruction : Instruction} (aligned : instruction.AlignedAt pc) (rest : Bytes) :
    operandsFrom pc found (instruction.bytes ++ rest) =
      operandsFrom (pc + instruction.bytes.length) ((operandAt? pc instruction).toList ++ found) rest := by
  have next : pc + instruction.bytes.length = pc + 1 + instruction.operands.length := by
    rw [Instruction.bytes, List.length_cons]
    omega
  have inside : ¬((instruction.operands ++ rest).take instruction.operands.length).length <
      instruction.operands.length := by
    rw [List.take_left]
    omega
  rw [next, Instruction.bytes, List.cons_append, operandsFrom]
  simp only [shape_of_aligned aligned, if_neg inside, List.drop_left]
  unfold operandAt?
  cases instruction.index? <;> rfl

/-- Where the scan goes on, an instruction stands. -/
theorem stands_of_scan {opcode : UInt8} {after : Bytes} {all : List Operand}
    (done : operandsFrom pc found (opcode :: after) = .ok all) : StandsAt pc opcode after := by
  rw [operandsFrom] at done
  cases read : shape pc opcode after with
  | error cause =>
    rw [read] at done
    cases done
  | ok shown =>
    simp only [read] at done
    split_ifs at done with beyond
    refine stands_of_shape read ?_
    rw [List.length_take] at beyond
    omega

/-- **The whole scan.** It succeeds exactly on instructions end to end, and finds their operands. -/
theorem operandsFrom_eq_ok {all : List Operand} : operandsFrom pc found code = .ok all ↔
    ∃ program, Laid pc program ∧ code = program.flatMap Instruction.bytes ∧
      all = found.reverse ++ poolOperands pc program := by
  constructor
  · intro done
    -- by induction over the length of the code: what is scanned first is an instruction
    induction long : code.length using Nat.strongRecOn generalizing pc found code with
    | _ length ih =>
      cases code with
      | nil =>
        rw [operandsFrom, Except.ok.injEq] at done
        refine ⟨[], fun _ member => absurd member List.not_mem_nil, rfl, ?_⟩
        rw [← done]
        exact (List.append_nil _).symm
      | cons opcode after =>
        obtain ⟨instruction, rest, aligned, rfl, rfl⟩ := stands_of_scan done
        have shorter : rest.length < length := by
          rw [← long, List.length_cons, List.length_append]
          omega
        have step : instruction.opcode :: (instruction.operands ++ rest) = instruction.bytes ++ rest := rfl
        rw [step, operandsFrom_bytes aligned] at done
        obtain ⟨later, laid, rfl, rfl⟩ := ih _ shorter done rfl
        refine ⟨instruction :: later, laid_cons.mpr ⟨aligned, laid⟩, rfl, ?_⟩
        rw [poolOperands_cons, reverse_found, List.append_assoc]
  · rintro ⟨program, laid, rfl, rfl⟩
    induction program generalizing pc found with
    | nil =>
      rw [List.flatMap_nil, operandsFrom]
      exact congrArg Except.ok (List.append_nil _).symm
    | cons instruction later ih =>
      obtain ⟨aligned, laid⟩ := laid_cons.mp laid
      rw [List.flatMap_cons, operandsFrom_bytes aligned, ih laid, poolOperands_cons, reverse_found, List.append_assoc]

/-! ### The order of the operands -/

theorem le_of_mem_place {program : List Instruction} {placed : Nat × Instruction} (member : placed ∈ place pc program) :
    pc ≤ placed.1 := by
  induction program generalizing pc with
  | nil => cases member
  | cons instruction later ih =>
    rcases List.mem_cons.mp member with rfl | member
    · exact Nat.le_refl pc
    · have := ih member
      omega

/-- Each instruction stands behind those before it. -/
theorem pairwise_place (pc : Nat) (program : List Instruction) :
    (place pc program).Pairwise fun first second => first.1 < second.1 := by
  induction program generalizing pc with
  | nil => exact .nil
  | cons instruction later ih =>
    refine .cons (fun placed member => ?_) (ih _)
    have behind := le_of_mem_place member
    rw [Instruction.bytes, List.length_cons] at behind
    show pc < placed.1
    omega

/-- Each instruction stands in front of the end of the code. -/
theorem lt_of_mem_place {program : List Instruction} {placed : Nat × Instruction} (member : placed ∈ place pc program) :
    placed.1 < pc + (program.flatMap Instruction.bytes).length := by
  induction program generalizing pc with
  | nil => cases member
  | cons instruction later ih =>
    rw [List.flatMap_cons, List.length_append]
    rcases List.mem_cons.mp member with rfl | member
    · rw [Instruction.bytes, List.length_cons]
      show pc < _
      omega
    · have := ih member
      omega

theorem pc_of_operandAt? {place : Nat} {instruction : Instruction} {operand : Operand}
    (found : operandAt? place instruction = some operand) : operand.pc = place := by
  obtain ⟨index, -, rfl⟩ := Option.map_eq_some_iff.mp found
  rfl

theorem pairwise_poolOperands (pc : Nat) (program : List Instruction) :
    (poolOperands pc program).Pairwise fun first second => first.pc < second.pc := by
  refine List.pairwise_filterMap.mpr ((pairwise_place pc program).imp ?_)
  intro first second before one oneFound two twoFound
  rw [pc_of_operandAt? oneFound, pc_of_operandAt? twoFound]
  exact before

/-! ### Numbers in range -/

/-- The numbers that the scan works with at `pc` are within 64 bits. Sums of numbers that are not negative are no less
than their parts, so the last sum stands for those before it. -/
structure InRange (pc : Nat) (opcode : UInt8) (after : Bytes) : Prop where
  /-- The last byte of the numbers of a switch. -/
  offset : pc + 1 + padding pc + 11 < 0x10000000000000000
  /-- How many targets a table switch has, computed with signs. -/
  targets : ∀ low high, numberAt pc after (padding pc + 4) = .ok low → numberAt pc after (padding pc + 8) = .ok high →
    -0x8000000000000000 ≤ high - low ∧ high - low + 1 < 0x8000000000000000
  /-- Where the next instruction stands. -/
  next : ∀ shown, shape pc opcode after = .ok shown → pc + (1 + shown.size) < 0x10000000000000000

theorem padding_lt (pc : Nat) : padding pc < 4 :=
  Nat.mod_lt _ (by decide)

/-- Operands of one length are at most four bytes long, in wide forms too. -/
theorem sizes_le (opcode : UInt8) : (∀ size, plainSize? opcode = some size → size ≤ 4) ∧
    (∀ size, indexedSize? opcode = some size → size ≤ 4) ∧ ∀ size, widenedSize? opcode = some size → size ≤ 4 := by
  have all : ∀ opcode : UInt8, (plainSize? opcode).all (· ≤ 4) ∧ (indexedSize? opcode).all (· ≤ 4) ∧
      (widenedSize? opcode).all (· ≤ 4) := by
    refine forall_byte ?_
    decide +kernel
  obtain ⟨plain, indexed, widened⟩ := all opcode
  refine ⟨fun size found => ?_, fun size found => ?_, fun size found => ?_⟩
  · simpa [found] using plain
  · simpa [found] using indexed
  · simpa [found] using widened

section Sizes

variable {after : Bytes} {shown : Shape}

theorem size_of_tableShape (read : tableShape pc after = .ok shown) : shown.size < 0x800000000 := by
  obtain ⟨low, lowRead, read⟩ := bind_eq_ok.mp read
  obtain ⟨high, highRead, read⟩ := bind_eq_ok.mp read
  obtain ⟨lowWord, rfl⟩ := exists_of_numberAt lowRead
  obtain ⟨highWord, rfl⟩ := exists_of_numberAt highRead
  have lowBounds := number_bounds lowWord
  have highBounds := number_bounds highWord
  have gap := padding_lt pc
  split_ifs at read with backwards
  rw [← pure_eq_ok.mp read]
  show padding pc + 12 + 4 * (number highWord - number lowWord + 1).toNat < 0x800000000
  omega

theorem size_of_lookupShape (read : lookupShape pc after = .ok shown) : shown.size < 0x800000000 := by
  obtain ⟨pairs, pairsRead, read⟩ := bind_eq_ok.mp read
  obtain ⟨word, rfl⟩ := exists_of_numberAt pairsRead
  have bounds := number_bounds word
  have gap := padding_lt pc
  split_ifs at read with negative
  rw [← pure_eq_ok.mp read]
  show padding pc + 8 + 8 * (number word).toNat < 0x800000000
  omega

theorem size_of_wideShape (read : wideShape pc after = .ok shown) : shown.size < 0x800000000 := by
  obtain ⟨widened, -, read⟩ := bind_eq_ok.mp read
  cases sized : widenedSize? widened with
  | none =>
    rw [sized] at read
    cases read
  | some size =>
    rw [sized] at read
    rw [← pure_eq_ok.mp read]
    have small := (sizes_le widened).2.2 size sized
    show 1 + size < 0x800000000
    omega

theorem size_of_layout {opcode : UInt8} {layout : Layout} (listed : layoutIn? chart opcode = some layout)
    (read : layout.shape pc after = .ok shown) : shown.size < 0x800000000 := by
  cases layout with
  | bytes count =>
    cases read
    have small := (sizes_le opcode).1 count (by rw [plainSize?_eq, listed]; rfl)
    show count < 0x800000000
    omega
  | index behind =>
    obtain ⟨index, -, read⟩ := bind_eq_ok.mp read
    rw [← pure_eq_ok.mp read]
    have small := (sizes_le opcode).2.1 (2 + behind) (by rw [indexedSize?_eq, listed]; rfl)
    show 2 + behind < 0x800000000
    omega

/-- A table switch of all numbers is the longest instruction. -/
theorem size_of_shape {opcode : UInt8} (read : shape pc opcode after = .ok shown) : shown.size < 0x800000000 := by
  rcases shape_cases read with ⟨layout, listed, read⟩ | ⟨index, behind, -, -, rfl⟩ | ⟨-, read⟩ | ⟨-, read⟩ | ⟨-, read⟩
  · exact size_of_layout listed read
  · exact (by decide : 1 < 0x800000000)
  · exact size_of_tableShape read
  · exact size_of_lookupShape read
  · exact size_of_wideShape read

/-- **No overflow** anywhere in code of less than `2 ^ 32` bytes. -/
theorem inRange_of_lt {opcode : UInt8} (small : pc < 0x100000000) : InRange pc opcode after where
  offset := by
    have gap := padding_lt pc
    omega
  targets low high lowRead highRead := by
    obtain ⟨lowWord, rfl⟩ := exists_of_numberAt lowRead
    obtain ⟨highWord, rfl⟩ := exists_of_numberAt highRead
    have lowBounds := number_bounds lowWord
    have highBounds := number_bounds highWord
    omega
  next shown read := by
    have size := size_of_shape read
    omega

end Sizes

/-! ### The scan of a method's code -/

/-- **The scan is an exact decoding.** For code of less than `2 ^ 32` bytes, operands are found exactly if the code is
complete instructions end to end from its start, each with the padding of its place, and they are the indices of the
pool in these instructions with their places and opcodes, in strictly increasing order of their places, which fit 32
bits. Wherever the scan stands, none of its numbers is beyond 64 bits. -/
theorem operands_exact {code : Bytes} (small : code.length < 0x100000000) :
    (∀ found, operands code = .ok found ↔ ∃ program, Laid 0 program ∧ code = program.flatMap Instruction.bytes ∧
      found = poolOperands 0 program) ∧
    (∀ found, operands code = .ok found → found.Pairwise (fun first second => first.pc < second.pc) ∧
      ∀ operand ∈ found, operand.pc < 0x100000000) ∧
    ∀ pc opcode after, code.drop pc = opcode :: after → InRange pc opcode after := by
  have decoded : ∀ found, operands code = .ok found ↔ ∃ program, Laid 0 program ∧
      code = program.flatMap Instruction.bytes ∧ found = poolOperands 0 program := fun found => operandsFrom_eq_ok
  refine ⟨decoded, fun found done => ?_, fun pc opcode after here => inRange_of_lt ?_⟩
  · obtain ⟨program, -, rfl, rfl⟩ := (decoded found).mp done
    refine ⟨pairwise_poolOperands 0 program, fun operand member => ?_⟩
    obtain ⟨placed, inside, shown⟩ := List.mem_filterMap.mp member
    rw [pc_of_operandAt? shown]
    have := lt_of_mem_place inside
    omega
  · have inside : (code.drop pc).length ≠ 0 := by
      rw [here]
      exact Nat.succ_ne_zero _
    rw [List.length_drop] at inside
    omega

/-- A table switch from -1 to 0 behind `iload_0`, a wide `iinc`, `ldc`, an empty lookup switch and `invokeinterface`. -/
def switching : List Instruction :=
  [.plain 0x1a [] rfl, .table [7, 9] 0 0xffffffff 0 [20, 20] (by decide) (by decide), .wide 0x84 [1, 0, 0, 1] rfl,
    .load 3, .lookup [5, 5, 5] 8 [] (by decide), .indexed 0xb9 9 [1, 0] rfl]

theorem operands_exact_switching :
    (switching.flatMap Instruction.bytes).length < 0x100000000 ∧
      operands [0x1a, 0xaa, 7, 9, 0, 0, 0, 0, 0xff, 0xff, 0xff, 0xff, 0, 0, 0, 0, 0, 0, 0, 20, 0, 0, 0, 20,
          0xc4, 0x84, 1, 0, 0, 1, 0x12, 3, 0xab, 5, 5, 5, 0, 0, 0, 8, 0, 0, 0, 0, 0xb9, 0, 9, 1, 0] =
        .ok [⟨30, 0x12, 3⟩, ⟨44, 0xb9, 9⟩] := by
  refine ⟨by decide, ((operands_exact (by decide)).1 _).mpr ⟨switching, ?_, by decide, by decide⟩⟩
  refine laid_cons.mpr ⟨trivial, laid_cons.mpr ⟨⟨by decide, by decide⟩, laid_cons.mpr ⟨trivial, ?_⟩⟩⟩
  refine laid_cons.mpr ⟨trivial, laid_cons.mpr ⟨⟨by decide, by decide⟩, laid_cons.mpr ⟨trivial, ?_⟩⟩⟩
  exact fun _ member => absurd member List.not_mem_nil

end JarRename.Code
