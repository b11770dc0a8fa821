import JarRename.Proofs.Renaming.Validity
import JarRename.Proofs.Site.Code

/-!
**Nested attributes, decoded and walked.**

The code of a method is read twice: it is decoded when the class is checked, and its nested attributes are walked for
the names in them. Both readings see the same table at the same offset. The walk gives each nested attribute that is
decoded to its visit, in order, in a window of its own contents.

* `Attribute.placed`: nested attributes with the offsets of their contents;
* `Attribute.window_of_placed`, `Attribute.pairwise_placed`: their windows;
* `Mention.ofNested_table`: the walk over a table visits what is decoded from it;
* `CodeAttribute.places`, `CodeAttribute.Walked`: code that is walked as it is decoded;
* `ClassFile.walked_of_parse`: so it is in every class that parses.
-/

namespace JarRename

/-! ### Where nested attributes stand -/

namespace Attribute

/-- Attributes with the offsets of their contents, where the first starts at an offset. The contents stand after the
name and the length. -/
def placed (offset : Nat) : List Attribute → List (Nat × Attribute)
  | [] => []
  | item :: rest => (offset + 6, item) :: placed (offset + 6 + item.data.length) rest

theorem map_snd_placed (offset : Nat) (items : List Attribute) : (placed offset items).map Prod.snd = items := by
  induction items generalizing offset with
  | nil => rfl
  | cons item rest ih => rw [placed, List.map_cons, ih]

theorem length_toBytes {item : Attribute} {written : Bytes} (wrote : item.toBytes = .ok written) :
    written.length = 6 + item.data.length := by
  obtain ⟨-, rfl⟩ := toBytes_eq_ok.mp wrote
  simp only [List.length_append, Bytes.length_bytes16, Bytes.length_bytes32]

variable {items : List Attribute} {written : Bytes} {place : Nat × Attribute}

/-- The contents of an attribute stand in the bytes of the table from its offset on. -/
theorem exists_of_mem_placed (wrote : Bytes.concat toBytes items = .ok written) {offset : Nat}
    (member : place ∈ placed offset items) :
    ∃ before after, written = before ++ (place.2.data ++ after) ∧ place.1 = offset + before.length := by
  induction items generalizing offset written with
  | nil => cases member
  | cons item rest ih =>
    obtain ⟨first, later, wroteFirst, wroteLater, rfl⟩ := Pool.concat_cons_eq_ok.mp wrote
    have size := length_toBytes wroteFirst
    rcases List.mem_cons.mp member with rfl | member
    · obtain ⟨-, rfl⟩ := toBytes_eq_ok.mp wroteFirst
      exact ⟨Bytes.bytes16 item.name ++ Bytes.bytes32 (UInt32.ofNat item.data.length), later, by simp, rfl⟩
    · obtain ⟨before, after, rfl, place⟩ := ih wroteLater member
      refine ⟨first ++ before, after, (List.append_assoc _ _ _).symm, ?_⟩
      rw [place, List.length_append, size]
      omega

/-- **The window of an attribute of a table** is its contents, and lies inside the bytes. -/
theorem window_of_placed {table : Bytes} (wrote : tableBytes items = .ok table) (front : Bytes)
    (member : place ∈ placed (front.length + 2) items) :
    ((front ++ table).drop place.1).take place.2.data.length = place.2.data ∧
      place.1 + place.2.data.length ≤ (front ++ table).length := by
  obtain ⟨-, contents, wroteEach, rfl⟩ := Bytes.table_eq_ok.mp wrote
  obtain ⟨early, late, rfl, start⟩ := exists_of_mem_placed wroteEach member
  have before : (front ++ (Bytes.bytes16 (UInt16.ofNat items.length) ++ early)).length = place.1 := by
    rw [start, List.length_append, List.length_append, Bytes.length_bytes16, Nat.add_assoc]
  rw [← List.append_assoc _ early, ← List.append_assoc front, ← before]
  refine ⟨by rw [List.drop_left, List.take_left], ?_⟩
  simp only [List.length_append]
  omega

theorem le_of_mem_placed {offset : Nat} (member : place ∈ placed offset items) : offset + 6 ≤ place.1 := by
  induction items generalizing offset with
  | nil => cases member
  | cons item rest ih =>
    rcases List.mem_cons.mp member with rfl | member
    · exact Nat.le_refl _
    · have later := ih member
      omega

/-- Each attribute starts behind the contents of those before. -/
theorem pairwise_placed (offset : Nat) (items : List Attribute) :
    (placed offset items).Pairwise fun first second => first.1 + first.2.data.length ≤ second.1 := by
  induction items generalizing offset with
  | nil => exact .nil
  | cons item rest ih =>
    refine .cons (fun place member => ?_) (ih _)
    have later := le_of_mem_placed member
    show offset + 6 + item.data.length ≤ place.1
    omega

end Attribute

/-! ### Tables that are walked -/

namespace Walk

/-- A walk repeated once more gives its value in front of the others. -/
theorem times_succ {α : Type} (count : Nat) (item : Walk α) :
    times (count + 1) item = (do let first ← item; let later ← times count item; return first :: later) := by
  rw [times, timesFrom]
  refine congrArg (item >>= ·) (funext fun value => ?_)
  rw [timesFrom_eq]
  rfl

end Walk

namespace Mention

variable {pool : Pool} {α : Type} {items : List Attribute} {written : Bytes}

/-- The visit of an attribute at the offset of its contents. -/
def visitPlaced (pool : Pool) (visit : String → Cursor → Except Fault α) (place : Nat × Attribute) :
    Except Fault α := do
  let name ← pool.utf8 place.2.name
  visit name ⟨place.1, place.2.data⟩

/-- Attributes in a row are visited where they are placed, and the walk ends behind them. -/
theorem times_ofNestedOne (visit : String → Cursor → Except Fault α)
    (wrote : Bytes.concat Attribute.toBytes items = .ok written) (offset : Nat) (rest : Bytes) :
    Walk.times items.length (ofNestedOne pool visit) ⟨offset, written ++ rest⟩ = (do
      let found ← (Attribute.placed offset items).mapM (visitPlaced pool visit)
      return (found, ⟨offset + written.length, rest⟩)) := by
  induction items generalizing offset written with
  | nil =>
    cases wrote
    rfl
  | cons item items ih =>
    obtain ⟨first, later, wroteFirst, wroteLater, rfl⟩ := Pool.concat_cons_eq_ok.mp wrote
    have size := Attribute.length_toBytes wroteFirst
    have next : offset + 6 + item.data.length = offset + first.length := by rw [size, Nat.add_assoc]
    rw [List.length_cons, Walk.times_succ, run_bind, List.append_assoc, ofNestedOne_append visit wroteFirst,
      Attribute.placed, List.mapM_cons, next]
    simp only [visitPlaced, bind_assoc, pure_bind]
    refine congrArg (pool.utf8 item.name >>= ·) (funext fun name => ?_)
    refine congrArg (visit name ⟨offset + 6, item.data⟩ >>= ·) (funext fun found => ?_)
    rw [run_bind, ih wroteLater, List.length_append, Nat.add_assoc]
    simp only [bind_assoc, pure_bind]
    rfl

/-- **The walk over a table** visits the attributes in it where they are placed, behind the number of them. -/
theorem ofNested_table (visit : String → Cursor → Except Fault α) (wrote : Attribute.tableBytes items = .ok written)
    (offset : Nat) :
    ofNested pool visit ⟨offset, written⟩ = (do
      let found ← (Attribute.placed (offset + 2) items).mapM (visitPlaced pool visit)
      return (found, ⟨offset + written.length, []⟩)) := by
  obtain ⟨few, contents, wroteEach, rfl⟩ := Bytes.table_eq_ok.mp wrote
  have count : (UInt16.ofNat items.length).toNat = items.length := UInt16.toNat_ofNat_of_lt' few
  have walked : Walk.times items.length (ofNestedOne pool visit) ⟨offset + 2, contents ++ []⟩ = _ :=
    times_ofNestedOne visit wroteEach (offset + 2) []
  rw [List.append_nil] at walked
  rw [ofNested, run_bind_of_ok (Walk.u16_eq_ok.mpr ⟨_, rfl, rfl⟩), count, walked, List.length_append,
    Bytes.length_bytes16, Nat.add_assoc]

end Mention

/-! ### Code -/

namespace CodeAttribute

/-- The nested attributes of code with the offsets of their contents, behind the number of them. -/
def places (code : CodeAttribute) : List (Nat × Attribute) :=
  Attribute.placed (code.attributesOffset + 2) code.attributes

/-- **Code is walked as it is decoded.** Behind the offset of the nested attributes stands their table. The walk reaches
it, and gives the nested attributes to their visit in order, each with its name and in a window of its own contents. The
windows lie inside the contents of the code, each behind the one before. -/
structure Walked (pool : Pool) (data : Bytes) (code : CodeAttribute) : Prop where
  table : Attribute.readTable pool (data.drop code.attributesOffset) = .ok (code.attributes, [])
  reached : Mention.beforeNested ⟨0, data⟩ = .ok ((), ⟨code.attributesOffset, data.drop code.attributesOffset⟩)
  /-- Whatever is done at a visit, and whether it fails or not. -/
  visited : ∀ {α : Type} (visit : String → Cursor → Except Fault α),
    Mention.ofNested pool visit ⟨code.attributesOffset, data.drop code.attributesOffset⟩ = (do
      let found ← code.places.mapM (Mention.visitPlaced pool visit)
      return (found, ⟨data.length, []⟩))
  mentions : ∀ owner, Mention.ofAttribute pool owner true "Code" data = (do
    let found ← code.places.mapM (Mention.visitPlaced pool (Mention.within pool owner true))
    return found.flatten)
  decoded : code.places.map Prod.snd = code.attributes
  windows : ∀ place ∈ code.places,
    (data.drop place.1).take place.2.data.length = place.2.data ∧ place.1 + place.2.data.length ≤ data.length
  apart : code.places.Pairwise fun first second => first.1 + first.2.data.length ≤ second.1

variable {pool : Pool} {data : Bytes} {code : CodeAttribute}

/-- The walk over a nested attribute stays below the bound for the code, whose contents are longer. -/
theorem visitPlaced_withinAt (owner : String) {place : Nat × Attribute} (member : place ∈ code.places)
    (inside : place.1 + place.2.data.length ≤ data.length) :
    Mention.visitPlaced pool (Mention.withinAt pool owner true data.length) place =
      Mention.visitPlaced pool (Mention.within pool owner true) place := by
  have starts := Attribute.le_of_mem_placed member
  have deep : place.2.data.length < data.length := by omega
  refine congrArg (pool.utf8 place.2.name >>= ·) (funext fun name => ?_)
  exact Mention.withinAt_eq pool owner true deep

/-- Code that is decoded to its last byte is walked as it is decoded. -/
theorem walked_of_read (read : CodeAttribute.read pool data = .ok (code, [])) : code.Walked pool data := by
  obtain ⟨valid, written, wrote, same⟩ := (read_inverts pool _ _ _).mp read
  rw [List.append_nil] at same
  subst same
  obtain ⟨front, table, rfl, wroteTable, offset, before, -⟩ := Mention.beforeNested_toBytes wrote
  have behind : (front ++ table).drop code.attributesOffset = table := by rw [← offset, List.drop_left]
  have visited {α : Type} (visit : String → Cursor → Except Fault α) :
      Mention.ofNested pool visit ⟨code.attributesOffset, table⟩ = (do
        let found ← code.places.mapM (Mention.visitPlaced pool visit)
        return (found, ⟨(front ++ table).length, []⟩)) := by
    rw [Mention.ofNested_table visit wroteTable, List.length_append, offset, places]
  have windows (place : Nat × Attribute) (member : place ∈ code.places) :
      ((front ++ table).drop place.1).take place.2.data.length = place.2.data ∧
        place.1 + place.2.data.length ≤ (front ++ table).length := by
    rw [places, ← offset] at member
    exact Attribute.window_of_placed wroteTable front member
  constructor
  case table =>
    rw [behind]
    exact (Attribute.readTable_inverts pool _ _ _).mpr
      ⟨valid.attributes, table, wroteTable, (List.append_nil _).symm⟩
  case reached =>
    rw [behind]
    exact before
  case visited =>
    intro α visit
    rw [behind]
    exact visited visit
  case mentions =>
    intro owner
    rw [Mention.ofAttribute, Mention.ofAttributeAt_code, run_bind_of_ok before, run_bind, visited,
      mapM_congr fun place member => visitPlaced_withinAt owner member (windows place member).2]
    simp only [bind_assoc, pure_bind]
    rfl
  case decoded => exact Attribute.map_snd_placed _ _
  case windows => exact windows
  case apart => exact Attribute.pairwise_placed _ _

end CodeAttribute

namespace ClassFile

/-- **The first `Code` attribute of a method is decoded, and walked as it is decoded**, in every class that parses. -/
theorem walked_of_parse {bytes : Bytes} {file : ClassFile} (parsed : parse bytes = .ok file) {method : Member}
    (member : method ∈ file.methods) {item : Attribute}
    (first : method.attributes.find? (fun other => file.pool.utf8 other.name = .ok "Code") = some item) :
    ∃ code, Attribute.findCode? file.pool method.attributes = .ok (some code) ∧
      CodeAttribute.read file.pool item.data = .ok (code, []) ∧ code.Walked file.pool item.data := by
  obtain ⟨-, checked, -⟩ := parse_eq_ok_iff.mp parsed
  obtain ⟨code?, found, -⟩ := checkCode_eq_ok.mp checked method member
  obtain ⟨code, rfl, read⟩ := Attribute.eq_some_of_find? found first
  exact ⟨code, found, read, CodeAttribute.walked_of_read read⟩

/-- The code of the sample. -/
def sampleCode : Attribute where
  name := 9
  data := [0, 1, 0, 1, 0, 0, 0, 8, 0xBB, 0, 2, 0x57, 0x12, 3, 0x57, 0xB1, 0, 0, 0, 1, 0, 10, 0, 0, 0, 12,
    0, 1, 0, 0, 0, 8, 0, 7, 0, 5, 0, 0]

/-- The table of local variables stands behind eight bytes of instructions, no handlers and the number of nested
attributes. -/
theorem walked_of_parse_sample : parse sampleBytes = .ok sample ∧
    ∃ code, CodeAttribute.read sample.pool sampleCode.data = .ok (code, []) ∧ code.Walked sample.pool sampleCode.data ∧
      code.places = [(26, { name := 10, data := [0, 1, 0, 0, 0, 8, 0, 7, 0, 5, 0, 0] })] := by
  have parsed : parse sampleBytes = .ok sample := by decide +kernel
  obtain ⟨method, member, first⟩ : ∃ method ∈ sample.methods,
      method.attributes.find? (fun other => sample.pool.utf8 other.name = .ok "Code") = some sampleCode :=
    ⟨_, List.mem_cons_self, by decide +kernel⟩
  obtain ⟨code, -, read, walked⟩ := walked_of_parse parsed member first
  refine ⟨parsed, code, read, walked, ?_⟩
  have decoded : CodeAttribute.read sample.pool sampleCode.data =
      .ok ({ maxStack := 1, maxLocals := 1, code := [0xBB, 0, 2, 0x57, 0x12, 3, 0x57, 0xB1], handlers := [],
             attributes := [{ name := 10, data := [0, 1, 0, 0, 0, 8, 0, 7, 0, 5, 0, 0] }] }, []) := by
    decide +kernel
  cases read.symm.trans decoded
  rfl

end ClassFile

end JarRename
