import JarRename.Proofs.ClassFile.Header

/-!
**Class files cut off or continued.**

Where a class file ends is known from its own bytes: every part says how long it is before it is read. So a reader does
the same when more bytes follow, and leaves them, and a reader that fails fails the same way, unless it ran out of
bytes. This goes through sequences, choices and tables, and so through the whole class file. No accepted bytes are
therefore the start of other accepted bytes.

* `Fault.IsShortage`: the failures for want of bytes;
* `Reader.Steady`: a reader that does the same when more bytes follow;
* `Reader.Steady.bind`, `Reader.Steady.table`: sequences and tables of steady readers;
* `ClassFile.steady_read`: the reader of class files;
* `ClassFile.parse_prefixFree`: accepted bytes cut off anywhere, and accepted bytes with others behind them.
-/

namespace JarRename

/-- The bytes end inside a number or a block. -/
inductive Fault.IsShortage : Fault → Prop
  | number (width : Width) (remaining : Nat) : IsShortage (.outOfBytes width remaining)
  | block (length remaining : Nat) : IsShortage (.outOfBlock length remaining)

namespace Reader

variable {α β : Type}

/-! ### Readers that do the same when more bytes follow -/

/-- What is read stays the same when more bytes follow, and so does every failure other than a shortage. -/
structure Steady (reader : Reader α) : Prop where
  value : ∀ {bytes found rest}, reader bytes = .ok (found, rest) →
    ∀ more, reader (bytes ++ more) = .ok (found, rest ++ more)
  failure : ∀ {bytes cause}, reader bytes = .error cause →
    cause.IsShortage ∨ ∀ more, reader (bytes ++ more) = .error cause

namespace Steady

/-- A reader that only fails for want of bytes. -/
theorem of_shortage {reader : Reader α}
    (value : ∀ {bytes found rest}, reader bytes = .ok (found, rest) →
      ∀ more, reader (bytes ++ more) = .ok (found, rest ++ more))
    (short : ∀ {bytes cause}, reader bytes = .error cause → cause.IsShortage) : reader.Steady where
  value := value
  failure failed := .inl (short failed)

theorem pure (value : α) : Steady (Pure.pure value) where
  value done more := by
    obtain ⟨rfl, rfl⟩ := run_pure_eq_ok.mp done
    rfl
  failure failed := nomatch failed

theorem fail (cause : Fault) : Steady (Reader.fail cause : Reader α) where
  value done := absurd done fail_ne_ok
  failure failed := .inr fun _ => failed

/-- A check takes no bytes, so it does not see what follows. -/
theorem check (outcome : Except Fault α) : Steady (Reader.check outcome) where
  value done more := by
    obtain ⟨found, rfl⟩ := check_eq_ok.mp done
    exact check_eq_ok.mpr ⟨found, rfl⟩
  failure failed := by
    cases outcome with
    | error cause => exact .inr fun _ => failed
    | ok value => cases failed

/-- **A sequence** of steady readers. -/
theorem bind {first : Reader α} {next : α → Reader β} (steady : first.Steady) (later : ∀ value, (next value).Steady) :
    (first >>= next).Steady where
  value done more := by
    obtain ⟨middle, between, read, rest⟩ := run_bind_eq_ok.mp done
    exact run_bind_eq_ok.mpr ⟨middle, _, steady.value read more, (later middle).value rest more⟩
  failure failed := by
    obtain failed | ⟨middle, between, read, failed⟩ := run_bind_eq_error.mp failed
    · exact (steady.failure failed).imp_right fun again more => run_bind_eq_error.mpr (.inl (again more))
    · refine ((later middle).failure failed).imp_right fun again more => ?_
      exact run_bind_eq_error.mpr (.inr ⟨middle, _, steady.value read more, again more⟩)

/-- **A choice** that does not depend on the bytes. -/
theorem ite {condition : Prop} [Decidable condition] {first second : Reader α} (one : first.Steady)
    (two : second.Steady) : (if condition then first else second).Steady := by
  split
  · exact one
  · exact two

/-! ### Numbers, blocks and tables -/

theorem u8 : Steady Reader.u8 := by
  refine .of_shortage (fun done more => ?_) fun {bytes cause} failed => ?_
  · obtain rfl := u8_eq_ok.mp done
    exact u8_eq_ok.mpr rfl
  · match bytes, failed with
    | [], rfl => exact .number _ _

theorem u16 : Steady Reader.u16 := by
  refine .of_shortage (fun done more => ?_) fun {bytes cause} failed => ?_
  · obtain rfl := u16_eq_ok.mp done
    exact u16_eq_ok.mpr (List.append_assoc _ _ _)
  · match bytes, failed with
    | [], rfl | [_], rfl => exact .number _ _

theorem u32 : Steady Reader.u32 := by
  refine .of_shortage (fun done more => ?_) fun {bytes cause} failed => ?_
  · obtain rfl := u32_eq_ok.mp done
    exact u32_eq_ok.mpr (List.append_assoc _ _ _)
  · match bytes, failed with
    | [], rfl | [_], rfl | [_, _], rfl | [_, _, _], rfl => exact .number _ _

theorem u64 : Steady Reader.u64 := by
  refine .of_shortage (fun done more => ?_) fun {bytes cause} failed => ?_
  · obtain rfl := u64_eq_ok.mp done
    exact u64_eq_ok.mpr (List.append_assoc _ _ _)
  · match bytes, failed with
    | [], rfl | [_], rfl | [_, _], rfl | [_, _, _], rfl | [_, _, _, _], rfl | [_, _, _, _, _], rfl
    | [_, _, _, _, _, _], rfl | [_, _, _, _, _, _, _], rfl => exact .number _ _

theorem block (length : Nat) : Steady (Reader.block length) := by
  refine .of_shortage (fun done more => ?_) fun {bytes cause} failed => ?_
  · obtain ⟨size, rfl⟩ := block_eq_ok.mp done
    exact block_eq_ok.mpr ⟨size, List.append_assoc _ _ _⟩
  · unfold Reader.block at failed
    dsimp only at failed
    split_ifs at failed
    cases failed
    exact .block _ _

theorem manyFrom {item : Reader α} (steady : item.Steady) (found : List α) (count : Nat) :
    Steady (Reader.manyFrom item found count) := by
  induction count generalizing found with
  | zero => exact .pure _
  | succ count ih => exact steady.bind fun value => ih (value :: found)

/-- **A table** of values whose reader is steady. -/
theorem table {item : Reader α} (steady : item.Steady) : Steady (Reader.table item) :=
  u16.bind fun count => steady.manyFrom [] count.toNat

end Steady

end Reader

open Reader

/-! ### The parts of a class file -/

theorem Pool.steady_readTextIndex (pool : Pool) : pool.readTextIndex.Steady :=
  Steady.u16.bind fun index => (Steady.check (pool.utf8Bytes index)).bind fun _ => .pure index

theorem Pool.steady_readClassIndex (pool : Pool) : pool.readClassIndex.Steady :=
  Steady.u16.bind fun index => (Steady.check (pool.classRef index)).bind fun _ => .pure index

theorem Pool.steady_readOptionalClassIndex (pool : Pool) : pool.readOptionalClassIndex.Steady :=
  Steady.u16.bind fun index =>
    .ite (.pure none) ((Steady.check (pool.classRef index)).bind fun _ => .pure (some index))

theorem Attribute.steady_readTable (pool : Pool) : (readTable pool).Steady := by
  refine Steady.table (pool.steady_readTextIndex.bind fun name => ?_)
  exact Steady.u32.bind fun length => (Steady.block length.toNat).bind fun data => .pure _

theorem Member.steady_read (pool : Pool) : (read pool).Steady := by
  refine Steady.u16.bind fun flags => pool.steady_readTextIndex.bind fun name => ?_
  refine pool.steady_readTextIndex.bind fun descriptor => ?_
  exact (Attribute.steady_readTable pool).bind fun attributes => .pure _

/-- The contents of a constant are numbers, and a block in a text. -/
theorem Constant.steady_readOf (kind : Kind) : (readOf kind).Steady := by
  have one (build : UInt16 → Constant) : Steady (do return build (← Reader.u16)) :=
    Steady.u16.bind fun index => .pure _
  have two (build : UInt16 → UInt16 → Constant) :
      Steady (do let first ← Reader.u16; return build first (← Reader.u16)) :=
    Steady.u16.bind fun first => one (build first)
  cases kind with
  | utf8 => exact Steady.u16.bind fun length => (Steady.block length.toNat).bind fun data => .pure _
  | integer | float => exact Steady.u32.bind fun bits => .pure _
  | long | double => exact Steady.u64.bind fun bits => .pure _
  | classRef | string | methodType | moduleRef | packageRef => exact one _
  | field | method | interfaceMethod | nameAndType | dynamic | invokeDynamic => exact two _
  | methodHandle => exact Steady.u8.bind fun kind => one (.methodHandle kind)
  | reserved => exact .pure _

theorem Constant.steady_read : Constant.read.Steady := by
  refine Steady.u8.bind fun tag => ?_
  cases Kind.ofTag? tag with
  | none => exact .fail _
  | some kind => exact steady_readOf kind

/-- Whether a constant more is read depends on the pool that was read so far, and not on what follows. -/
theorem Pool.steady_readUpTo (declared limit : Nat) (pool : Pool) : (readUpTo declared limit pool).Steady := by
  induction limit generalizing pool with
  | zero => exact .pure pool
  | succ limit ih =>
    refine .ite (Constant.steady_read.bind fun constant => ?_) (.pure pool)
    exact .ite (ih (pool.push constant)) (.fail _)

theorem Pool.steady_read : Pool.read.Steady := by
  refine Steady.u16.bind fun count => .ite (.fail _) ?_
  exact (steady_readUpTo _ _ {}).bind fun pool => .ite (.pure pool) (.fail _)

namespace ClassFile

theorem steady_readPreamble : readPreamble.Steady := by
  refine Steady.u32.bind fun found => .ite (.fail _) ?_
  refine Steady.u16.bind fun minor => Steady.u16.bind fun major => .ite (.fail _) ?_
  exact Pool.steady_read.bind fun pool => (Steady.check pool.check).bind fun _ => .pure _

/-- **The reader of class files** is steady. -/
theorem steady_read : ClassFile.read.Steady := by
  refine steady_readPreamble.bind fun ⟨minor, major, pool⟩ => Steady.u16.bind fun flags => ?_
  refine pool.steady_readClassIndex.bind fun thisClass => ?_
  refine pool.steady_readOptionalClassIndex.bind fun superClass => ?_
  refine pool.steady_readClassIndex.table.bind fun interfaces => ?_
  refine (Member.steady_read pool).table.bind fun fields => ?_
  refine (Member.steady_read pool).table.bind fun methods => ?_
  exact (Attribute.steady_readTable pool).bind fun attributes => .pure _

/-! ### Whole class files -/

variable {bytes : Bytes} {file : ClassFile}

/-- Bytes in which reading fails are no class file. -/
theorem parse_of_read_error {cause : Fault} (failed : read bytes = .error cause) : parse bytes = .error cause := by
  rw [parse, failed]
  rfl

/-- **Accepted bytes are no part of others.** Cut off at any place, the bytes of a class file end too early for the
number or the block that is read there. With any bytes behind them, they are refused for these. So of two different
accepted byte strings neither is the start of the other. -/
theorem parse_prefixFree (parsed : parse bytes = .ok file) :
    (∀ offset < bytes.length, ∃ cause, parse (bytes.take offset) = .error cause ∧ cause.IsShortage) ∧
    (∀ more, more ≠ [] → parse (bytes ++ more) = .error .extraBytes) ∧
    ∀ other found, parse other = .ok found → (bytes <+: other ∨ other <+: bytes) → other = bytes := by
  have whole := read_of_parse parsed
  have shorter (front back : Bytes) (cut : back ≠ []) (split : front ++ back = bytes) :
      ∃ cause, parse front = .error cause ∧ cause.IsShortage := by
    cases started : read front with
    | ok result =>
      -- what was read would be the whole class file, with bytes left over
      obtain ⟨found, rest⟩ := result
      have again := steady_read.value started back
      rw [split, whole] at again
      have left : [] = rest ++ back := congrArg Prod.snd (Except.ok.inj again)
      exact absurd (List.append_eq_nil_iff.mp left.symm).2 cut
    | error cause =>
      refine ⟨cause, parse_of_read_error started, (steady_read.failure started).resolve_right fun again => ?_⟩
      have failed := again back
      rw [split, whole] at failed
      cases failed
  have longer (more : Bytes) (behind : more ≠ []) : parse (bytes ++ more) = .error .extraBytes := by
    rw [parse, steady_read.value whole more, ok_bind, List.nil_append]
    cases more with
    | nil => exact absurd rfl behind
    | cons byte more => rfl
  refine ⟨fun offset inside => ?_, longer, ?_⟩
  · refine shorter _ (bytes.drop offset) ?_ (List.take_append_drop offset bytes)
    rw [ne_eq, List.drop_eq_nil_iff]
    omega
  · rintro other found accepted (⟨more, rfl⟩ | ⟨back, split⟩)
    · by_contra differs
      have behind : more ≠ [] := fun none => differs (by rw [none, List.append_nil])
      cases (longer more behind).symm.trans accepted
    · by_contra differs
      have cut : back ≠ [] := fun none => differs (by rw [← split, none, List.append_nil])
      obtain ⟨cause, failed, -⟩ := shorter other back cut split
      cases failed.symm.trans accepted

/-- The odd bytes are cut off inside the contents of an attribute. -/
theorem parse_prefixFree_odd : parse oddBytes = .ok odd ∧
    (∃ cause, parse (oddBytes.take 59) = .error cause ∧ cause.IsShortage) ∧
    parse (oddBytes ++ [0x00]) = .error .extraBytes := by
  have parsed : parse oddBytes = .ok odd := by decide +kernel
  obtain ⟨shorter, longer, -⟩ := parse_prefixFree parsed
  exact ⟨parsed, shorter 59 (by decide), longer [0x00] (List.cons_ne_nil _ _)⟩

end ClassFile

end JarRename
