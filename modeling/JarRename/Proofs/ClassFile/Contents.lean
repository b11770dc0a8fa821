import JarRename.Proofs.ClassFile.Format
import JarRename.Proofs.Pool.Growth

/-!
**The format of decoded attributes.**

The code of a method and the table of bootstrap methods are read exactly from what is written for them, if
their indices point at constants of the right kinds. A pool that keeps its constants reads the same.

* `CodeAttribute.toBytes`, `CodeAttribute.read_inverts`: the code of a method;
* `BootstrapMethod.toBytes`, `BootstrapMethod.read_inverts`: the bootstrap methods of a class;
* `Attribute.find?_cons_of_name`, `Attribute.find?_eq_none`: the first attribute of a name;
* `Attribute.eq_some_of_find?`, `Attribute.find?_related`: what is found, and the same in two tables.
-/

namespace JarRename

/-! ### Code -/

/-- The bytes of an exception handler. -/
def Handler.toBytes (handler : Handler) : Bytes :=
  Bytes.bytes16 handler.start ++ Bytes.bytes16 handler.finish ++ Bytes.bytes16 handler.handler ++
    Bytes.bytes16 (handler.catchType.getD 0)

/-- The class that a handler catches is a class. -/
def Handler.Valid (pool : Pool) (handler : Handler) : Prop :=
  ∀ index ∈ handler.catchType, pool.Has .classRef index

/-- A handler takes eight bytes. -/
theorem Handler.length_toBytes (handler : Handler) : handler.toBytes.length = 8 := rfl

namespace CodeAttribute

/-- The bytes of the contents of a `Code` attribute. -/
def toBytes (code : CodeAttribute) : Except Fault Bytes := do
  let length ← Bytes.length32 code.code.length
  let handlers ← Bytes.table (fun handler => return handler.toBytes) code.handlers
  let attributes ← Attribute.tableBytes code.attributes
  return Bytes.bytes16 code.maxStack ++ Bytes.bytes16 code.maxLocals ++ length ++ code.code ++ handlers ++
    attributes

/-- The handlers catch classes, and the names of the nested attributes are texts. -/
structure Valid (pool : Pool) (code : CodeAttribute) : Prop where
  handlers : ∀ handler ∈ code.handlers, handler.Valid pool
  attributes : ∀ item ∈ code.attributes, item.Valid pool

theorem readHandler_inverts (pool : Pool) :
    Reader.Inverts (readHandler pool) (fun handler => return handler.toBytes) (Handler.Valid pool) := by
  intro bytes handler rest
  simp only [readHandler, run_bind_eq_ok, Reader.u16_eq_ok, Pool.readOptionalClassIndex_eq_ok,
    run_pure_eq_ok, pure_eq_ok, Handler.toBytes]
  constructor
  · rintro ⟨start, _, rfl, finish, _, rfl, target, _, rfl, catchType, _, ⟨valid, rfl⟩, rfl, rfl⟩
    exact ⟨valid, _, rfl, by simp only [List.append_assoc]⟩
  · rintro ⟨valid, _, rfl, rfl⟩
    exact ⟨handler.start, _, by simp only [List.append_assoc], handler.finish, _, rfl, handler.handler, _, rfl,
      handler.catchType, rest, ⟨valid, rfl⟩, rfl, rfl⟩

/-- **Code** is read from its limits, its instructions, its handlers and its nested attributes. -/
theorem read_inverts (pool : Pool) : Reader.Inverts (read pool) toBytes (Valid pool) := by
  intro bytes code rest
  have handlerTable := (readHandler_inverts pool).table
  have attributeTable := Attribute.readTable_inverts pool
  simp only [read, run_bind_eq_ok, Reader.u16_eq_ok, Reader.u32_eq_ok, Reader.block_eq_ok,
    handlerTable _ _ _, attributeTable _ _ _, run_pure_eq_ok, toBytes, bind_eq_ok, pure_eq_ok,
    Bytes.length32_eq_ok]
  constructor
  · rintro ⟨maxStack, _, rfl, maxLocals, _, rfl, length, _, rfl, instructions, _, ⟨size, rfl⟩, handlers, _,
      ⟨validHandlers, handlerBytes, wroteHandlers, rfl⟩, attributes, _,
      ⟨validAttributes, attributeBytes, wroteAttributes, rfl⟩, rfl, rfl⟩
    refine ⟨⟨validHandlers, validAttributes⟩, _, ⟨Bytes.bytes32 length, ⟨?_, ?_⟩, handlerBytes, wroteHandlers,
      attributeBytes, wroteAttributes, rfl⟩, by simp only [List.append_assoc]⟩
    · rw [size]
      exact length.toNat_lt
    · rw [size, UInt32.ofNat_toNat]
  · rintro ⟨valid, _, ⟨_, ⟨fits, rfl⟩, handlerBytes, wroteHandlers, attributeBytes, wroteAttributes, rfl⟩, rfl⟩
    exact ⟨code.maxStack, _, by simp only [List.append_assoc], code.maxLocals, _, rfl,
      UInt32.ofNat code.code.length, _, rfl, code.code, _, ⟨(UInt32.toNat_ofNat_of_lt' fits).symm, rfl⟩,
      code.handlers, _, ⟨valid.handlers, handlerBytes, wroteHandlers, rfl⟩, code.attributes, rest,
      ⟨valid.attributes, attributeBytes, wroteAttributes, rfl⟩, rfl, rfl⟩

theorem Valid.keep {before after : Pool} (keeps : Pool.Keeps before after) {code : CodeAttribute}
    (valid : code.Valid before) : code.Valid after where
  handlers := fun handler member index caught => keeps.has (valid.handlers handler member index caught)
  attributes := fun item member => keeps.has (valid.attributes item member)

/-- A pool that keeps its constants reads the same code. -/
theorem read_keep {before after : Pool} (keeps : Pool.Keeps before after) {bytes rest : Bytes} {code : CodeAttribute}
    (done : read before bytes = .ok (code, rest)) : read after bytes = .ok (code, rest) := by
  obtain ⟨valid, written, wrote, rfl⟩ := (read_inverts before _ _ _).mp done
  exact (read_inverts after _ _ _).mpr ⟨valid.keep keeps, written, wrote, rfl⟩

end CodeAttribute

/-! ### Bootstrap methods -/

namespace BootstrapMethod

/-- The bytes of a bootstrap method. -/
def toBytes (method : BootstrapMethod) : Except Fault Bytes := do
  let arguments ← Bytes.table (fun index => return Bytes.bytes16 index) method.arguments
  return Bytes.bytes16 method.handle ++ arguments

/-- The handle is a method handle, and the arguments are constants in use. -/
structure Valid (pool : Pool) (method : BootstrapMethod) : Prop where
  handle : ∃ handle, pool.methodHandle method.handle = .ok handle
  arguments : ∀ index ∈ method.arguments, ∃ constant, pool.get index = .ok constant

theorem readArgument_inverts (pool : Pool) :
    Reader.Inverts (readArgument pool) (fun index => return Bytes.bytes16 index)
      (fun index => ∃ constant, pool.get index = .ok constant) := by
  intro bytes index rest
  simp only [readArgument, run_bind_eq_ok, Reader.u16_eq_ok, Reader.check_eq_ok, run_pure_eq_ok, pure_eq_ok]
  constructor
  · rintro ⟨index, _, rfl, constant, _, ⟨found, rfl⟩, rfl, rfl⟩
    exact ⟨⟨constant, found⟩, _, rfl, rfl⟩
  · rintro ⟨⟨constant, found⟩, _, rfl, rfl⟩
    exact ⟨index, rest, rfl, constant, rest, ⟨found, rfl⟩, rfl, rfl⟩

theorem read_inverts (pool : Pool) : Reader.Inverts (read pool) toBytes (Valid pool) := by
  intro bytes method rest
  have table := (readArgument_inverts pool).table
  simp only [read, run_bind_eq_ok, Reader.u16_eq_ok, Reader.check_eq_ok, table _ _ _, run_pure_eq_ok, toBytes,
    bind_eq_ok, pure_eq_ok]
  constructor
  · rintro ⟨index, _, rfl, handle, _, ⟨found, rfl⟩, arguments, _, ⟨valid, written, wrote, rfl⟩, rfl, rfl⟩
    exact ⟨⟨⟨handle, found⟩, valid⟩, _, ⟨written, wrote, rfl⟩, by simp only [List.append_assoc]⟩
  · rintro ⟨⟨⟨handle, found⟩, valid⟩, _, ⟨written, wrote, rfl⟩, rfl⟩
    exact ⟨method.handle, _, by simp only [List.append_assoc], handle, _, ⟨found, rfl⟩, method.arguments, rest,
      ⟨valid, written, wrote, rfl⟩, rfl, rfl⟩

theorem Valid.keep {before after : Pool} (keeps : Pool.Keeps before after) {method : BootstrapMethod}
    (valid : method.Valid before) : method.Valid after where
  handle := by
    obtain ⟨⟨kind, target⟩, found⟩ := valid.handle
    exact ⟨_, Pool.methodHandle_eq_ok.mpr (keeps.slot_eq (Pool.methodHandle_eq_ok.mp found) rfl)⟩
  arguments := by
    intro index member
    obtain ⟨constant, found⟩ := valid.arguments index member
    obtain ⟨later, kept, -⟩ := keeps.get found
    exact ⟨later, kept⟩

/-- A pool that keeps its constants reads the same bootstrap methods. -/
theorem readTable_keep {before after : Pool} (keeps : Pool.Keeps before after) {bytes rest : Bytes}
    {methods : List BootstrapMethod} (done : readTable before bytes = .ok (methods, rest)) :
    readTable after bytes = .ok (methods, rest) := by
  obtain ⟨valid, written, wrote, rfl⟩ := ((read_inverts before).table _ _ _).mp done
  exact ((read_inverts after).table _ _ _).mpr
    ⟨fun method member => (valid method member).keep keeps, written, wrote, rfl⟩

end BootstrapMethod

/-! ### The first attribute of a name -/

namespace Attribute

/-- Contents are decoded if they are read to their last byte. -/
theorem decode_eq_ok {α : Type} {name : String} {contents : Reader α} {item : Attribute} {value : α} :
    decode name contents item = .ok value ↔ contents item.data = .ok (value, []) := by
  rw [decode, bind_eq_ok]
  constructor
  · rintro ⟨⟨found, rest⟩, done, same⟩
    cases rest with
    | nil =>
      cases same
      exact done
    | cons byte rest => cases same
  · intro done
    exact ⟨(value, []), done, rfl⟩

/-- The first attribute of a name is found where it stands. -/
theorem find?_cons_of_name {α : Type} {pool : Pool} {name : String} {contents : Reader α} {item : Attribute}
    {value : α} (named : pool.utf8 item.name = .ok name) (decoded : decode name contents item = .ok value)
    (rest : List Attribute) : find? pool name contents (item :: rest) = .ok (some value) := by
  refine bind_eq_ok.mpr ⟨name, named, ?_⟩
  rw [if_pos rfl]
  exact bind_eq_ok.mpr ⟨value, decoded, rfl⟩

/-- No attribute of a name is found if all have other names. -/
theorem find?_eq_none {α : Type} {pool : Pool} {name : String} {contents : Reader α} {items : List Attribute}
    (others : ∀ item ∈ items, ∃ text, pool.utf8 item.name = .ok text ∧ text ≠ name) :
    find? pool name contents items = .ok none := by
  induction items with
  | nil => rfl
  | cons item rest ih =>
    obtain ⟨⟨text, named, other⟩, later⟩ := List.forall_mem_cons.mp others
    refine bind_eq_ok.mpr ⟨text, named, ?_⟩
    rw [if_neg other]
    exact ih later

/-- What is found is the decoded first attribute of the name. -/
theorem eq_some_of_find? {α : Type} {pool : Pool} {name : String} {contents : Reader α} {items : List Attribute}
    {found : Option α} (done : find? pool name contents items = .ok found) {item : Attribute}
    (first : items.find? (fun other => pool.utf8 other.name = .ok name) = some item) :
    ∃ value, found = some value ∧ contents item.data = .ok (value, []) := by
  induction items with
  | nil => cases first
  | cons other rest ih =>
    obtain ⟨text, read, done⟩ := bind_eq_ok.mp done
    by_cases same : text = name
    · subst same
      simp only [List.find?_cons, read, decide_true] at first
      cases first
      rw [if_pos rfl] at done
      obtain ⟨value, decoded, done⟩ := bind_eq_ok.mp done
      cases done
      exact ⟨value, rfl, decode_eq_ok.mp decoded⟩
    · have differs : ¬ pool.utf8 other.name = .ok name := fun named => same (Except.ok.inj (read.symm.trans named))
      simp only [List.find?_cons, differs, decide_false] at first
      rw [if_neg same] at done
      exact ih done first

/-- The first attribute of a name is found in related tables at the same place, if the names stay. -/
theorem find?_related {α : Type} {pool other : Pool} (keeps : Pool.Keeps pool other) {name : String}
    {contents otherContents : Reader α} {before : Attribute → Attribute → Prop} {after : α → α → Prop}
    {items others : List Attribute} (related : List.Forall₂ before items others)
    (names : ∀ item partner, before item partner → partner.name = item.name)
    (decodes : ∀ item partner value, before item partner → pool.utf8 item.name = .ok name →
      contents item.data = .ok (value, []) →
      ∃ new, otherContents partner.data = .ok (new, []) ∧ after value new)
    {found : Option α} (done : find? pool name contents items = .ok found) :
    ∃ new, find? other name otherContents others = .ok new ∧ Option.Rel after found new := by
  induction related with
  | nil =>
    cases done
    exact ⟨none, rfl, .none⟩
  | @cons item partner items others head tail ih =>
    obtain ⟨text, read, done⟩ := bind_eq_ok.mp done
    have readAgain : other.utf8 partner.name = .ok text := by
      rw [names item partner head]
      exact keeps.utf8 read
    by_cases same : text = name
    · rw [if_pos same] at done
      obtain ⟨value, decoded, done⟩ := bind_eq_ok.mp done
      cases done
      obtain ⟨new, again, good⟩ := decodes item partner value head (same ▸ read) (decode_eq_ok.mp decoded)
      refine ⟨some new, bind_eq_ok.mpr ⟨text, readAgain, ?_⟩, .some good⟩
      rw [if_pos same]
      exact bind_eq_ok.mpr ⟨new, decode_eq_ok.mpr again, rfl⟩
    · rw [if_neg same] at done
      obtain ⟨new, again, good⟩ := ih done
      refine ⟨new, bind_eq_ok.mpr ⟨text, readAgain, ?_⟩, good⟩
      rw [if_neg same]
      exact again

end Attribute

end JarRename
