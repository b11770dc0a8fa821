import JarRename.Proofs.Pool.Format

/-!
**The format of class files.**

Every part of a class file is read exactly from what is written for it, if its indices point at constants
of the right kinds. So the bytes of a class file and the class file determine each other.

* `Attribute.read_inverts`, `Member.read_inverts`: the parts;
* `ClassFile.WellFormed`: what reading a class file checks before its code;
* `ClassFile.parse_eq_ok_iff`: the bytes from which a class file is read;
* `ClassFile.toBytes_of_parse`: a class file that was read is written back byte for byte.
-/

namespace JarRename

/-! ### Indices -/

/-- An index of a text is read from its two bytes. -/
theorem Pool.readTextIndex_eq_ok {pool : Pool} {bytes rest : Bytes} {index : Index} :
    pool.readTextIndex bytes = .ok (index, rest) ↔
      pool.Has .utf8 index ∧ bytes = Bytes.bytes16 index ++ rest := by
  simp only [readTextIndex, run_bind_eq_ok, Reader.u16_eq_ok, Reader.check_eq_ok, run_pure_eq_ok, has_utf8]
  constructor
  · rintro ⟨index, between, rfl, text, _, ⟨found, rfl⟩, rfl, rfl⟩
    exact ⟨⟨text, found⟩, rfl⟩
  · rintro ⟨⟨text, found⟩, rfl⟩
    exact ⟨index, rest, rfl, text, rest, ⟨found, rfl⟩, rfl, rfl⟩

theorem Pool.readClassIndex_eq_ok {pool : Pool} {bytes rest : Bytes} {index : Index} :
    pool.readClassIndex bytes = .ok (index, rest) ↔
      pool.Has .classRef index ∧ bytes = Bytes.bytes16 index ++ rest := by
  simp only [readClassIndex, run_bind_eq_ok, Reader.u16_eq_ok, Reader.check_eq_ok, run_pure_eq_ok,
    has_classRef]
  constructor
  · rintro ⟨index, between, rfl, name, _, ⟨found, rfl⟩, rfl, rfl⟩
    exact ⟨⟨name, found⟩, rfl⟩
  · rintro ⟨⟨name, found⟩, rfl⟩
    exact ⟨index, rest, rfl, name, rest, ⟨found, rfl⟩, rfl, rfl⟩

/-- An optional index is zero where there is none. -/
theorem Pool.readOptionalClassIndex_eq_ok {pool : Pool} {bytes rest : Bytes} {found : Option Index} :
    pool.readOptionalClassIndex bytes = .ok (found, rest) ↔
      (∀ index ∈ found, pool.Has .classRef index) ∧ bytes = Bytes.bytes16 (found.getD 0) ++ rest := by
  simp only [readOptionalClassIndex, run_bind_eq_ok, Reader.u16_eq_ok]
  constructor
  · rintro ⟨index, between, rfl, done⟩
    by_cases zero : index = 0
    · rw [if_pos zero] at done
      obtain ⟨rfl, rfl⟩ := run_pure_eq_ok.mp done
      exact ⟨nofun, by rw [zero]; rfl⟩
    · rw [if_neg zero] at done
      simp only [run_bind_eq_ok, Reader.check_eq_ok, run_pure_eq_ok] at done
      obtain ⟨name, _, ⟨class_, rfl⟩, rfl, rfl⟩ := done
      refine ⟨?_, rfl⟩
      intro other same
      cases same
      exact has_classRef.mpr ⟨name, class_⟩
  · rintro ⟨valid, rfl⟩
    refine ⟨found.getD 0, rest, rfl, ?_⟩
    cases found with
    | none => exact run_pure_eq_ok.mpr ⟨rfl, rfl⟩
    | some index =>
      have has := valid index rfl
      obtain ⟨name, class_⟩ := has_classRef.mp has
      have nonzero : (some index).getD 0 ≠ 0 := has.ne_zero
      rw [if_neg nonzero]
      simp only [run_bind_eq_ok, Reader.check_eq_ok, run_pure_eq_ok]
      exact ⟨name, rest, ⟨class_, rfl⟩, rfl, rfl⟩

theorem Pool.readClassIndex_inverts (pool : Pool) :
    Reader.Inverts pool.readClassIndex (fun index => return Bytes.bytes16 index) (pool.Has .classRef) := by
  intro bytes index rest
  rw [readClassIndex_eq_ok]
  refine and_congr_right fun _ => ⟨fun same => ⟨_, rfl, same⟩, ?_⟩
  rintro ⟨written, wrote, rfl⟩
  cases wrote
  rfl

/-! ### Attributes and members -/

theorem Attribute.toBytes_eq_ok {item : Attribute} {written : Bytes} :
    item.toBytes = .ok written ↔
      item.data.length < 4294967296 ∧
        Bytes.bytes16 item.name ++ Bytes.bytes32 (UInt32.ofNat item.data.length) ++ item.data = written := by
  rw [toBytes, bind_eq_ok]
  constructor
  · rintro ⟨counted, counts, joined⟩
    obtain ⟨fits, rfl⟩ := Bytes.length32_eq_ok.mp counts
    exact ⟨fits, pure_eq_ok.mp joined⟩
  · rintro ⟨fits, joined⟩
    exact ⟨_, Bytes.length32_eq_ok.mpr ⟨fits, rfl⟩, pure_eq_ok.mpr joined⟩

/-- **An attribute** is read from its name, its length and its contents. -/
theorem Attribute.read_inverts (pool : Pool) :
    Reader.Inverts (read pool) toBytes (fun item => pool.Has .utf8 item.name) := by
  intro bytes item rest
  simp only [read, run_bind_eq_ok, Pool.readTextIndex_eq_ok, Reader.u32_eq_ok, Reader.block_eq_ok,
    run_pure_eq_ok, toBytes_eq_ok]
  constructor
  · rintro ⟨name, _, ⟨has, rfl⟩, length, _, rfl, data, _, ⟨size, rfl⟩, rfl, rfl⟩
    refine ⟨has, _, ⟨?_, rfl⟩, ?_⟩
    · rw [size]
      exact length.toNat_lt
    · simp only [size, UInt32.ofNat_toNat, List.append_assoc]
  · rintro ⟨has, written, ⟨fits, rfl⟩, rfl⟩
    refine ⟨item.name, _, ⟨has, by rw [List.append_assoc, List.append_assoc]⟩,
      UInt32.ofNat item.data.length, item.data ++ rest, rfl, item.data, rest, ⟨?_, rfl⟩, rfl, rfl⟩
    exact (UInt32.toNat_ofNat_of_lt' fits).symm

/-- The name of an attribute is a text. -/
def Attribute.Valid (pool : Pool) (item : Attribute) : Prop :=
  pool.Has .utf8 item.name

theorem Attribute.readTable_inverts (pool : Pool) :
    Reader.Inverts (readTable pool) tableBytes (fun items => ∀ item ∈ items, item.Valid pool) :=
  (read_inverts pool).table

/-- The name and the descriptor of a member and the names of its attributes are texts. -/
structure Member.Valid (pool : Pool) (member : Member) : Prop where
  name : pool.Has .utf8 member.name
  descriptor : pool.Has .utf8 member.descriptor
  attributes : ∀ item ∈ member.attributes, item.Valid pool

/-- **A member** is read from its flags, its name, its descriptor and its attributes. -/
theorem Member.read_inverts (pool : Pool) : Reader.Inverts (read pool) toBytes (Valid pool) := by
  intro bytes member rest
  have table := Attribute.readTable_inverts pool
  simp only [read, run_bind_eq_ok, Reader.u16_eq_ok, Pool.readTextIndex_eq_ok, table _ _ _,
    run_pure_eq_ok, toBytes, bind_eq_ok, pure_eq_ok]
  constructor
  · rintro ⟨flags, _, rfl, name, _, ⟨hasName, rfl⟩, descriptor, _, ⟨hasDescriptor, rfl⟩, items, _,
      ⟨valid, written, wrote, rfl⟩, rfl, rfl⟩
    exact ⟨⟨hasName, hasDescriptor, valid⟩, _, ⟨written, wrote, rfl⟩, by simp only [List.append_assoc]⟩
  · rintro ⟨valid, _, ⟨written, wrote, rfl⟩, rfl⟩
    exact ⟨member.flags, _, by simp only [List.append_assoc], member.name, _, ⟨valid.name, rfl⟩,
      member.descriptor, _, ⟨valid.descriptor, rfl⟩, member.attributes, rest,
      ⟨valid.attributes, written, wrote, rfl⟩, rfl, rfl⟩

/-! ### Class files -/

namespace ClassFile

/-- What reading a class file checks before its code: the version, the pool, and the kinds of the constants
that the indices of its parts point at. -/
structure WellFormed (file : ClassFile) : Prop where
  version : ¬(file.major < minMajor ∨ maxMajor < file.major)
  laid : Pool.Laid file.pool.slots.toList
  checked : file.pool.check = .ok ()
  thisClass : file.pool.Has .classRef file.thisClass
  superClass : ∀ index ∈ file.superClass, file.pool.Has .classRef index
  interfaces : ∀ index ∈ file.interfaces, file.pool.Has .classRef index
  fields : ∀ field ∈ file.fields, field.Valid file.pool
  methods : ∀ method ∈ file.methods, method.Valid file.pool
  attributes : ∀ item ∈ file.attributes, item.Valid file.pool

/-- What stands in front of the class is read from the magic number, the version and the pool. -/
theorem readPreamble_eq_ok {bytes rest : Bytes} {start : Preamble} :
    readPreamble bytes = .ok (start, rest) ↔
      (¬(start.major < minMajor ∨ maxMajor < start.major) ∧ Pool.Laid start.pool.slots.toList ∧
        start.pool.check = .ok ()) ∧
      ∃ written, start.pool.toBytes = .ok written ∧
        bytes = Bytes.bytes32 magic ++ Bytes.bytes16 start.minor ++ Bytes.bytes16 start.major ++
          written ++ rest := by
  rw [readPreamble, run_bind_eq_ok]
  constructor
  · rintro ⟨found, _, first, done⟩
    obtain rfl := Reader.u32_eq_ok.mp first
    by_cases good : found = magic
    · subst good
      rw [if_neg (not_not_intro rfl)] at done
      simp only [run_bind_eq_ok, Reader.u16_eq_ok] at done
      obtain ⟨minor, _, rfl, major, _, rfl, done⟩ := done
      by_cases outside : major < minMajor ∨ maxMajor < major
      · rw [if_pos outside] at done
        exact absurd done Reader.fail_ne_ok
      · rw [if_neg outside] at done
        simp only [run_bind_eq_ok, Pool.read_inverts _ _ _, Reader.check_eq_ok, run_pure_eq_ok] at done
        obtain ⟨pool, _, ⟨laid, written, wrote, rfl⟩, _, _, ⟨checked, rfl⟩, rfl, rfl⟩ := done
        exact ⟨⟨outside, laid, checked⟩, written, wrote, by simp only [List.append_assoc]⟩
    · rw [if_pos good] at done
      exact absurd done Reader.fail_ne_ok
  · rintro ⟨⟨inside, laid, checked⟩, written, wrote, rfl⟩
    simp only [List.append_assoc]
    refine ⟨magic, _, Reader.u32_eq_ok.mpr rfl, ?_⟩
    rw [if_neg (not_not_intro rfl)]
    simp only [run_bind_eq_ok, Reader.u16_eq_ok]
    refine ⟨start.minor, _, rfl, start.major, _, rfl, ?_⟩
    rw [if_neg inside]
    simp only [run_bind_eq_ok, Pool.read_inverts _ _ _, Reader.check_eq_ok, run_pure_eq_ok]
    exact ⟨start.pool, rest, ⟨laid, written, wrote, rfl⟩, (), rest, ⟨checked, rfl⟩, rfl, rfl⟩

/-- **A class file** is read exactly from what is written for it, if it is well formed. -/
theorem read_inverts : Reader.Inverts read toBytes WellFormed := by
  intro bytes file rest
  have interfaceTable (pool : Pool) := (Pool.readClassIndex_inverts pool).table
  have memberTable (pool : Pool) := (Member.read_inverts pool).table
  have attributeTable (pool : Pool) := Attribute.readTable_inverts pool
  simp only [read, run_bind_eq_ok, readPreamble_eq_ok, Reader.u16_eq_ok, Pool.readClassIndex_eq_ok,
    Pool.readOptionalClassIndex_eq_ok, interfaceTable _ _ _ _, memberTable _ _ _ _,
    attributeTable _ _ _ _, run_pure_eq_ok, toBytes, bind_eq_ok, pure_eq_ok]
  constructor
  · rintro ⟨start, _, ⟨⟨version, laid, checked⟩, pool, wrotePool, rfl⟩, flags, _, rfl, thisClass, _,
      ⟨hasThis, rfl⟩, superClass, _, ⟨hasSuper, rfl⟩, interfaces, _,
      ⟨hasInterfaces, interfaceBytes, wroteInterfaces, rfl⟩, fields, _,
      ⟨validFields, fieldBytes, wroteFields, rfl⟩, methods, _,
      ⟨validMethods, methodBytes, wroteMethods, rfl⟩, attributes, _,
      ⟨validAttributes, attributeBytes, wroteAttributes, rfl⟩, rfl, rfl⟩
    exact ⟨⟨version, laid, checked, hasThis, hasSuper, hasInterfaces, validFields, validMethods,
        validAttributes⟩, _, ⟨pool, wrotePool, interfaceBytes, wroteInterfaces, fieldBytes, wroteFields,
        methodBytes, wroteMethods, attributeBytes, wroteAttributes, rfl⟩,
      by simp only [List.append_assoc]⟩
  · rintro ⟨valid, _, ⟨pool, wrotePool, interfaceBytes, wroteInterfaces, fieldBytes, wroteFields,
      methodBytes, wroteMethods, attributeBytes, wroteAttributes, rfl⟩, rfl⟩
    exact ⟨⟨file.minor, file.major, file.pool⟩, _,
      ⟨⟨valid.version, valid.laid, valid.checked⟩, pool, wrotePool, by simp only [List.append_assoc]⟩,
      file.flags, _, rfl, file.thisClass, _, ⟨valid.thisClass, rfl⟩, file.superClass, _,
      ⟨valid.superClass, rfl⟩, file.interfaces, _, ⟨valid.interfaces, interfaceBytes, wroteInterfaces, rfl⟩,
      file.fields, _, ⟨valid.fields, fieldBytes, wroteFields, rfl⟩, file.methods, _,
      ⟨valid.methods, methodBytes, wroteMethods, rfl⟩, file.attributes, rest,
      ⟨valid.attributes, attributeBytes, wroteAttributes, rfl⟩, rfl, rfl⟩

/-- **The format of class files.** Bytes are those of a class file exactly when they are written for it,
and the class file is well formed and its code passes its check. -/
theorem parse_eq_ok_iff {bytes : Bytes} {file : ClassFile} :
    parse bytes = .ok file ↔
      file.WellFormed ∧ file.checkCode = .ok () ∧ file.toBytes = .ok bytes := by
  rw [parse, bind_eq_ok]
  constructor
  · rintro ⟨⟨found, rest⟩, read, done⟩
    cases rest with
    | cons byte rest => cases done
    | nil =>
      obtain ⟨⟨⟩, checked, same⟩ := bind_eq_ok.mp done
      cases same
      obtain ⟨valid, written, wrote, rfl⟩ := (read_inverts _ _ _).mp read
      rw [List.append_nil]
      exact ⟨valid, checked, wrote⟩
  · rintro ⟨valid, checked, wrote⟩
    refine ⟨(file, []), (read_inverts _ _ _).mpr ⟨valid, bytes, wrote, (List.append_nil _).symm⟩, ?_⟩
    exact bind_eq_ok.mpr ⟨(), checked, rfl⟩

/-- **A class file that was read is written back byte for byte.** -/
theorem toBytes_of_parse {bytes : Bytes} {file : ClassFile} (parsed : parse bytes = .ok file) :
    file.toBytes = .ok bytes :=
  (parse_eq_ok_iff.mp parsed).2.2

/-- A class file with the payload of a double that is no number, a text in a longer form than needed,
flags that mean nothing and an attribute of an unknown name. -/
def oddBytes : Bytes :=
  [0xCA, 0xFE, 0xBA, 0xBE, 0x00, 0x03, 0x00, 0x34, 0x00, 0x07,
    0x01, 0x00, 0x01, 0x41,
    0x07, 0x00, 0x01,
    0x06, 0x7F, 0xF0, 0x00, 0x00, 0x00, 0x00, 0x00, 0x01,
    0x01, 0x00, 0x02, 0xC1, 0x81,
    0x01, 0x00, 0x01, 0x58,
    0xFF, 0xFF, 0x00, 0x02, 0x00, 0x00, 0x00, 0x00, 0x00, 0x01,
    0xFF, 0xFF, 0x00, 0x05, 0x00, 0x06, 0x00, 0x01, 0x00, 0x06, 0x00, 0x00, 0x00, 0x01, 0x2A,
    0x00, 0x00, 0x00, 0x00]

/-- The class file in the odd bytes. -/
def odd : ClassFile where
  minor := 3
  major := 52
  pool.slots := #[.utf8 [0x41], .classRef 1, .double 0x7FF0000000000001, .reserved,
    .utf8 [0xC1, 0x81], .utf8 [0x58]]
  flags := 0xFFFF
  thisClass := 2
  superClass := none
  interfaces := []
  fields := [{ flags := 0xFFFF, name := 5, descriptor := 6,
               attributes := [{ name := 6, data := [0x2A] }] }]
  methods := []
  attributes := []

theorem toBytes_of_parse_odd : parse oddBytes = .ok odd ∧ odd.toBytes = .ok oddBytes :=
  have parsed : parse oddBytes = .ok odd := by decide +kernel
  ⟨parsed, toBytes_of_parse parsed⟩

end ClassFile

end JarRename
