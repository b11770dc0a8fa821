import JarRename.Proofs.ClassFile.Contents
import JarRename.Proofs.Site.Depth

/-!
**The names in code.**

The mentions in a `Code` attribute stand inside the contents of its nested attributes. So contents that differ
only where mentions stand are those of code with the same limits, instructions and handlers, whose nested
attributes have the same names and lengths.

* `Attribute.shape`: the name and the length of an attribute;
* `Mention.ofNestedOne_append`: the window of a nested attribute is its contents;
* `Mention.nested_differs`: a table of nested attributes;
* `Mention.code_differs`: a `Code` attribute.
-/

namespace JarRename

/-- The name and the length of an attribute. -/
def Attribute.shape (item : Attribute) : Index × Nat :=
  (item.name, item.data.length)

/-- Bytes that agree up to a length have the same front. -/
theorem Bytes.take_eq_of_agree {first second : Bytes} {length : Nat}
    (agree : ∀ position < length, first[position]? = second[position]?) :
    first.take length = second.take length := by
  refine List.ext_getElem? fun position => ?_
  rw [List.getElem?_take, List.getElem?_take]
  by_cases early : position < length
  · rw [if_pos early, if_pos early, agree position early]
  · rw [if_neg early, if_neg early]

/-- The bytes of a number of four bytes are those of its halves. -/
theorem Walk.u32_bytes32 (offset : Nat) (n : UInt32) (rest : Bytes) :
    Walk.u32 ⟨offset, Bytes.bytes32 n ++ rest⟩ = .ok (n.toNat, ⟨offset + 4, rest⟩) := by
  have bound := n.toNat_lt
  have value : (Bytes.word16 (UInt8.ofNat (n.toNat / 16777216)) (UInt8.ofNat (n.toNat / 65536 % 256))).toNat *
      65536 + (Bytes.word16 (UInt8.ofNat (n.toNat / 256 % 256)) (UInt8.ofNat (n.toNat % 256))).toNat =
      n.toNat := by
    simp only [Bytes.word16, UInt8.toNat_ofNat', UInt16.toNat_ofNat']
    omega
  exact congrArg (fun n => Except.ok (n, _)) value

/-- An outcome that is looked at leaves the cursor where it is. -/
theorem Walk.check_bind {α β : Type} (outcome : Except Fault α) (next : α → Walk β) (cursor : Cursor) :
    (check outcome >>= next) cursor = outcome >>= fun value => next value cursor := by
  cases outcome <;> rfl

namespace Mention

variable {pool : Pool} {visit : String → Cursor → Except Fault (List Mention)}

/-! ### Nested attributes -/

/-- The window of a nested attribute is its contents, which stand after its name and its length. -/
theorem ofNestedOne_append {α : Type} (visit : String → Cursor → Except Fault α) {item : Attribute} {written : Bytes}
    (wrote : item.toBytes = .ok written) (offset : Nat) (rest : Bytes) :
    ofNestedOne pool visit ⟨offset, written ++ rest⟩ = (do
      let name ← pool.utf8 item.name
      let found ← visit name ⟨offset + 6, item.data⟩
      return (found, ⟨offset + written.length, rest⟩)) := by
  obtain ⟨fits, rfl⟩ := Attribute.toBytes_eq_ok.mp wrote
  have size : (UInt32.ofNat item.data.length).toNat = item.data.length := UInt32.toNat_ofNat_of_lt' fits
  have skipped : Walk.skip item.data.length ⟨offset + 2 + 4, item.data ++ rest⟩ = .ok ((), _) :=
    Walk.skip_eq_ok.mpr ⟨_, _, rfl, rfl, rfl⟩
  simp only [List.append_assoc]
  rw [ofNestedOne, run_bind_of_ok (Walk.u16_eq_ok.mpr ⟨_, rfl, rfl⟩), Walk.check_bind]
  refine congrArg (pool.utf8 item.name >>= ·) (funext fun name => ?_)
  rw [run_bind_of_ok (Walk.u32_bytes32 _ _ _), size,
    run_bind_of_ok (Walk.nested_eq_ok.mpr ⟨_, _, rfl, rfl, rfl, rfl⟩), Walk.check_bind]
  refine congrArg (visit name ⟨offset + 6, item.data⟩ >>= ·) (funext fun found => ?_)
  rw [run_bind_of_ok skipped]
  refine run_pure_eq_ok.mpr ⟨rfl, ?_⟩
  simp only [List.length_append, Bytes.length_bytes16, Bytes.length_bytes32, Nat.add_assoc]

theorem ofNestedOne_toBytes {item : Attribute} {offset : Nat} {written rest : Bytes}
    {found : List Mention} {final : Cursor} (wrote : item.toBytes = .ok written)
    (walked : ofNestedOne pool visit ⟨offset, written ++ rest⟩ = .ok (found, final)) :
    ∃ name, pool.utf8 item.name = .ok name ∧ visit name ⟨offset + 6, item.data⟩ = .ok found ∧
      final = ⟨offset + written.length, rest⟩ := by
  rw [ofNestedOne_append visit wrote] at walked
  obtain ⟨name, read, walked⟩ := bind_eq_ok.mp walked
  obtain ⟨visited, visiting, walked⟩ := bind_eq_ok.mp walked
  cases walked
  exact ⟨name, read, visiting, rfl⟩

/-- A table of nested attributes, read again from bytes that differ only where mentions stand. The mentions
stand after the name and the length of the first. -/
theorem nested_differs
    (inside : ∀ name offset window found, visit name ⟨offset, window⟩ = .ok found → ∀ mention ∈ found,
      offset ≤ mention.offset ∧ mention.offset + 2 ≤ offset + window.length)
    {items : List Attribute} {offset : Nat} {written rest : Bytes} {found : List Mention} {final : Cursor}
    (wrote : Bytes.concat Attribute.toBytes items = .ok written)
    (walked : Walk.concat items.length (ofNestedOne pool visit) ⟨offset, written ++ rest⟩ =
      .ok (found, final)) :
    (∀ mention ∈ found, offset ≤ mention.offset) ∧
      ∀ data : Bytes, data.length = written.length →
        (∀ position, (∀ mention ∈ found, offset + position < mention.offset ∨
          mention.offset + 2 ≤ offset + position) → data[position]? = written[position]?) →
        ∃ others, others.map Attribute.shape = items.map Attribute.shape ∧
          Bytes.concat Attribute.toBytes others = .ok data := by
  induction items generalizing offset written found with
  | nil =>
    cases wrote
    cases walked
    refine ⟨fun _ member => absurd member List.not_mem_nil, fun data length _ => ⟨[], rfl, ?_⟩⟩
    rw [List.length_eq_zero_iff.mp length]
    rfl
  | cons item items ih =>
    obtain ⟨first, later, wroteFirst, wroteLater, rfl⟩ := Pool.concat_cons_eq_ok.mp wrote
    rw [List.length_cons, Walk.concat_succ, List.append_assoc] at walked
    obtain ⟨early, _, walkedFirst, walked⟩ := run_bind_eq_ok.mp walked
    obtain ⟨name, -, visited, rfl⟩ := ofNestedOne_toBytes wroteFirst walkedFirst
    obtain ⟨late, _, walkedLater, walked⟩ := run_bind_eq_ok.mp walked
    obtain ⟨rfl, rfl⟩ := run_pure_eq_ok.mp walked
    obtain ⟨lateInside, differs⟩ := ih wroteLater walkedLater
    have earlyInside := inside name _ _ early visited
    obtain ⟨fits, rfl⟩ := Attribute.toBytes_eq_ok.mp wroteFirst
    simp only [List.length_append, Bytes.length_bytes16, Bytes.length_bytes32] at lateInside differs ⊢
    refine ⟨fun mention member => ?_, fun data length outside => ?_⟩
    · obtain member | member := List.mem_append.mp member
      · have bounds := earlyInside mention member
        omega
      · have bounds := lateInside mention member
        omega
    · -- the name and the length stay, the contents are taken as they are, and the rest is read again
      have front : data.take 6 = Bytes.bytes16 item.name ++ Bytes.bytes32 (UInt32.ofNat item.data.length) := by
        rw [Bytes.take_eq_of_agree fun position early => outside position fun mention member => ?_]
        · rfl
        · obtain member | member := List.mem_append.mp member
          · have bounds := earlyInside mention member
            omega
          · have bounds := lateInside mention member
            omega
      obtain ⟨others, shapes, wroteOthers⟩ := differs (data.drop (2 + 4 + item.data.length))
        (by rw [List.length_drop]; omega) fun position free => by
          rw [List.getElem?_drop, outside]
          · rw [List.getElem?_append_right]
            · simp only [List.length_append, Bytes.length_bytes16, Bytes.length_bytes32,
                Nat.add_sub_cancel_left]
            · simp only [List.length_append, Bytes.length_bytes16, Bytes.length_bytes32]
              omega
          · intro mention member
            obtain member | member := List.mem_append.mp member
            · have bounds := earlyInside mention member
              omega
            · have place := free mention member
              omega
      have size : ((data.drop 6).take item.data.length).length = item.data.length := by
        rw [List.length_take, List.length_drop]
        omega
      refine ⟨⟨item.name, (data.drop 6).take item.data.length⟩ :: others, ?_, ?_⟩
      · rw [List.map_cons, List.map_cons, shapes, Attribute.shape, Attribute.shape, size]
      · refine Pool.concat_cons_eq_ok.mpr ⟨_, _, Attribute.toBytes_eq_ok.mpr ⟨?_, rfl⟩, wroteOthers, ?_⟩
        · exact lt_of_eq_of_lt size fits
        · rw [size, ← front, List.append_assoc]
          have later : data.drop (2 + 4 + item.data.length) = (data.drop 6).drop item.data.length := by
            rw [List.drop_drop]
          rw [later, List.take_append_drop, List.take_append_drop]

/-! ### Code -/

theorem length_handlers {handlers : List Handler} {written : Bytes}
    (wrote : Bytes.concat (fun handler => return Handler.toBytes handler) handlers = .ok written) :
    written.length = handlers.length * 8 := by
  induction handlers generalizing written with
  | nil =>
    cases wrote
    rfl
  | cons handler handlers ih =>
    obtain ⟨first, later, wroteFirst, wroteLater, rfl⟩ := Pool.concat_cons_eq_ok.mp wrote
    cases wroteFirst
    rw [List.length_append, ih wroteLater, Handler.length_toBytes, List.length_cons]
    omega

/-- What stands before the nested attributes: the limits, the instructions and the handlers. -/
theorem beforeNested_toBytes {code : CodeAttribute} {written : Bytes} (wrote : code.toBytes = .ok written) :
    ∃ front table, written = front ++ table ∧ Attribute.tableBytes code.attributes = .ok table ∧
      front.length = code.attributesOffset ∧
      beforeNested ⟨0, written⟩ = .ok ((), ⟨code.attributesOffset, table⟩) ∧
      ∀ others otherTable, Attribute.tableBytes others = .ok otherTable →
        CodeAttribute.toBytes { code with attributes := others } = .ok (front ++ otherTable) := by
  simp only [CodeAttribute.toBytes, bind_eq_ok, pure_eq_ok, Bytes.length32_eq_ok] at wrote
  obtain ⟨_, ⟨fits, rfl⟩, handlers, wroteHandlers, table, wroteTable, rfl⟩ := wrote
  obtain ⟨few, each, wroteEach, rfl⟩ := Bytes.table_eq_ok.mp wroteHandlers
  have eights := length_handlers wroteEach
  have size : (UInt32.ofNat code.code.length).toNat = code.code.length := UInt32.toNat_ofNat_of_lt' fits
  have count : (UInt16.ofNat code.handlers.length).toNat = code.handlers.length :=
    UInt16.toNat_ofNat_of_lt' few
  refine ⟨_, table, rfl, wroteTable, ?_, ?_, fun others otherTable wroteOthers => ?_⟩
  · simp only [List.length_append, Bytes.length_bytes16, Bytes.length_bytes32, eights,
      CodeAttribute.attributesOffset]
    omega
  · have limits (rest : Bytes) : Walk.skip 4 ⟨0, Bytes.bytes16 code.maxStack ++
        (Bytes.bytes16 code.maxLocals ++ rest)⟩ = .ok ((), ⟨0 + 4, rest⟩) :=
      Walk.skip_eq_ok.mpr ⟨Bytes.bytes16 code.maxStack ++ Bytes.bytes16 code.maxLocals, rest, rfl, rfl, rfl⟩
    have instructions (offset : Nat) (rest : Bytes) : Walk.skip code.code.length ⟨offset, code.code ++ rest⟩ =
        .ok ((), ⟨offset + code.code.length, rest⟩) :=
      Walk.skip_eq_ok.mpr ⟨_, _, rfl, rfl, rfl⟩
    have pastHandlers (offset : Nat) : Walk.skip (code.handlers.length * 8) ⟨offset, each ++ table⟩ =
        .ok ((), ⟨offset + code.handlers.length * 8, table⟩) :=
      Walk.skip_eq_ok.mpr ⟨_, _, eights, rfl, rfl⟩
    simp only [List.append_assoc]
    rw [beforeNested, run_bind_of_ok (limits _), run_bind_of_ok (Walk.u32_bytes32 _ _ _), size,
      run_bind_of_ok (instructions _ _), run_bind_of_ok (Walk.u16_eq_ok.mpr ⟨_, rfl, rfl⟩), count,
      pastHandlers]
    rfl
  · simp only [CodeAttribute.toBytes, bind_eq_ok, pure_eq_ok, Bytes.length32_eq_ok]
    exact ⟨_, ⟨fits, rfl⟩, _, wroteHandlers, otherTable, wroteOthers, rfl⟩

theorem ofAttributeAt_code (pool : Pool) (owner : String) (depth : Nat) :
    ofAttributeAt pool owner true (depth + 1) "Code" = (do
      beforeNested
      let found ← ofNested pool (withinAt pool owner true depth)
      return found.flatten) :=
  rfl

/-- **Contents of code that differ only where mentions stand** are those of code with the same limits,
instructions and handlers. -/
theorem code_differs {owner : String} {data new : Bytes} {code : CodeAttribute} {found : List Mention}
    (read : CodeAttribute.read pool data = .ok (code, []))
    (done : ofAttribute pool owner true "Code" data = .ok found) (length : new.length = data.length)
    (outside : ∀ position, (∀ mention ∈ found, position < mention.offset ∨ mention.offset + 2 ≤ position) →
      new[position]? = data[position]?) :
    ∃ others, others.map Attribute.shape = code.attributes.map Attribute.shape ∧
      CodeAttribute.toBytes { code with attributes := others } = .ok new := by
  obtain ⟨-, written, wrote, same⟩ := (CodeAttribute.read_inverts pool _ _ _).mp read
  rw [List.append_nil] at same
  subst same
  obtain ⟨front, table, rfl, wroteTable, offset, before, rewrite⟩ := beforeNested_toBytes wrote
  obtain ⟨few, nested, wroteNested, rfl⟩ := Bytes.table_eq_ok.mp wroteTable
  have count : (UInt16.ofNat code.attributes.length).toNat = code.attributes.length :=
    UInt16.toNat_ofNat_of_lt' few
  obtain ⟨⟨mentions, final⟩, walked, same⟩ := bind_eq_ok.mp done
  cases same
  rw [ofAttributeAt_code, Account.flatten_ofNested, run_bind_of_ok before, Walk.table,
    run_bind_of_ok (Walk.u16_eq_ok.mpr ⟨_, rfl, rfl⟩), count, ← List.append_nil nested] at walked
  obtain ⟨late, differs⟩ := nested_differs (fun name offset window found visited mention member => by
    obtain ⟨⟨inner, last⟩, inside, same⟩ := bind_eq_ok.mp visited
    cases same
    exact inside_of_ofAttributeAt inside member) wroteNested walked
  have size : (front ++ Bytes.bytes16 (UInt16.ofNat code.attributes.length)).length =
      code.attributesOffset + 2 := by
    rw [List.length_append, offset, Bytes.length_bytes16]
  rw [← List.append_assoc] at length outside
  have kept : new.take (code.attributesOffset + 2) =
      front ++ Bytes.bytes16 (UInt16.ofNat code.attributes.length) := by
    rw [Bytes.take_eq_of_agree fun position early => outside position fun mention member => ?_]
    · rw [← size, List.take_left]
    · exact .inl (Nat.lt_of_lt_of_le early (late mention member))
  obtain ⟨others, shapes, wroteOthers⟩ := differs (new.drop (code.attributesOffset + 2))
    (by rw [List.length_drop, length, List.length_append, size, Nat.add_sub_cancel_left])
    fun position free => by
      rw [List.getElem?_drop, outside _ free, ← size, List.getElem?_append_right (Nat.le_add_right _ _),
        Nat.add_sub_cancel_left]
  have many : others.length = code.attributes.length := by
    rw [← List.length_map, shapes, List.length_map]
  refine ⟨others, shapes, ?_⟩
  have table : Attribute.tableBytes others =
      .ok (Bytes.bytes16 (UInt16.ofNat code.attributes.length) ++ new.drop (code.attributesOffset + 2)) :=
    Bytes.table_eq_ok.mpr ⟨many ▸ few, _, wroteOthers, by rw [many]⟩
  rw [rewrite others _ table, ← List.append_assoc, ← kept, List.take_append_drop]

end Mention

end JarRename
