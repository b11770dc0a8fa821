import JarRename.Proofs.ClassFile.Format

/-!
**Headers.**

The facts of a class about the hierarchy stand in front of its members. They can be read alone, and are the same as
those of the whole class file.

* `Header.names`, `ClassFile.header_eq_ok`: the names in a header, and where they stand;
* `ClassFile.headerIndices`, `ClassFile.exists_header_iff`: the indices of these names, and when there is a header;
* `Header.parse_of_read`: the header in bytes from which a class file is read.
-/

namespace JarRename

/-- The names in a header: of the class, its superclass and its interfaces. -/
def Header.names (header : Header) : List String :=
  header.name :: (header.superName.toList ++ header.interfaces)

namespace ClassFile

variable {file : ClassFile} {header : Header}

/-- The header of a class has its names and its flags. -/
theorem header_eq_ok : file.header = .ok header ↔
    file.name = .ok header.name ∧ file.superName = .ok header.superName ∧
      file.interfaceNames = .ok header.interfaces ∧ file.flags = header.flags := by
  simp only [ClassFile.header, bind_eq_ok, pure_eq_ok]
  constructor
  · rintro ⟨name, named, superName, superNamed, interfaces, listed, rfl⟩
    exact ⟨named, superNamed, listed, rfl⟩
  · rintro ⟨named, superNamed, listed, flags⟩
    exact ⟨_, named, _, superNamed, _, listed, by rw [flags]⟩

/-- The indices of the names in the header of a class. -/
def headerIndices (file : ClassFile) : List Index :=
  file.thisClass :: (file.superClass.toList ++ file.interfaces)

/-- The name of the superclass is that of its class. -/
theorem superName_eq_ok {superName : Option String} : file.superName = .ok superName ↔
    Option.Rel (fun index name => file.pool.className index = .ok name) file.superClass superName := by
  unfold ClassFile.superName
  cases file.superClass with
  | none =>
    constructor
    · intro done
      cases done
      exact .none
    · intro related
      cases related
      rfl
  | some index =>
    constructor
    · intro done
      obtain ⟨name, found, done⟩ := bind_eq_ok.mp done
      cases done
      exact .some found
    · intro related
      cases related with
      | some found => exact bind_eq_ok.mpr ⟨_, found, rfl⟩

/-- The superclass has a readable name, or there is none. -/
theorem exists_superName_iff : (∃ superName, file.superName = .ok superName) ↔
    ∀ index ∈ file.superClass.toList, ∃ name, file.pool.className index = .ok name := by
  unfold superName
  cases file.superClass with
  | none => exact ⟨fun _ => List.forall_mem_nil _, fun _ => ⟨none, rfl⟩⟩
  | some index =>
    rw [Option.toList_some, List.forall_mem_singleton]
    constructor
    · rintro ⟨superName, done⟩
      obtain ⟨name, read, -⟩ := bind_eq_ok.mp done
      exact ⟨name, read⟩
    · rintro ⟨name, read⟩
      exact ⟨some name, bind_eq_ok.mpr ⟨name, read, rfl⟩⟩

theorem exists_interfaceNames_iff : (∃ interfaces, file.interfaceNames = .ok interfaces) ↔
    ∀ index ∈ file.interfaces, ∃ name, file.pool.className index = .ok name := by
  constructor
  · rintro ⟨interfaces, done⟩ index member
    obtain ⟨name, -, read⟩ := mapM_of_mem done member
    exact ⟨name, read⟩
  · exact exists_mapM

/-- **A class has a header** exactly if all names in it can be read. -/
theorem exists_header_iff : (∃ header, file.header = .ok header) ↔
    ∀ index ∈ file.headerIndices, ∃ name, file.pool.className index = .ok name := by
  rw [headerIndices, List.forall_mem_cons, List.forall_mem_append, ← exists_superName_iff, ← exists_interfaceNames_iff]
  constructor
  · rintro ⟨header, read⟩
    obtain ⟨named, superNamed, listed, -⟩ := header_eq_ok.mp read
    exact ⟨⟨_, named⟩, ⟨_, superNamed⟩, ⟨_, listed⟩⟩
  · rintro ⟨⟨name, named⟩, ⟨superName, superNamed⟩, ⟨interfaces, listed⟩⟩
    exact ⟨⟨name, superName, interfaces, file.flags⟩, header_eq_ok.mpr ⟨named, superNamed, listed, rfl⟩⟩

/-- A class file that is accepted is read to the last byte. -/
theorem read_of_parse {bytes : Bytes} (parsed : parse bytes = .ok file) : read bytes = .ok (file, []) := by
  obtain ⟨valid, -, wrote⟩ := parse_eq_ok_iff.mp parsed
  exact (read_inverts bytes file []).mpr ⟨valid, bytes, wrote, (List.append_nil _).symm⟩

end ClassFile

namespace Header

variable {file : ClassFile} {bytes rest : Bytes}

/-- The name of the superclass is read from its index. -/
theorem readOptionalName_eq (file : ClassFile) {bytes rest : Bytes}
    (read : file.pool.readOptionalClassIndex bytes = .ok (file.superClass, rest)) :
    readOptionalName file.pool bytes = Reader.check file.superName rest := by
  obtain ⟨valid, rfl⟩ := Pool.readOptionalClassIndex_eq_ok.mp read
  rw [readOptionalName, run_bind_of_ok (Reader.u16_eq_ok.mpr rfl), ClassFile.superName]
  cases found : file.superClass with
  | none => rfl
  | some index =>
    have nonzero : (some index).getD 0 ≠ 0 := (valid index found).ne_zero
    rw [if_neg nonzero]
    show (Reader.check (file.pool.className index) >>= fun name => pure (some name)) rest =
      Reader.check (file.pool.className index >>= fun name => pure (some name)) rest
    cases file.pool.className index <;> rfl

/-- **The header in the bytes of a class file** is that of the class. -/
theorem parse_of_read {header : Header} (read : ClassFile.read bytes = .ok (file, rest)) :
    Header.parse bytes = .ok header ↔ file.header = .ok header := by
  rw [ClassFile.read] at read
  obtain ⟨start, first, preamble, read⟩ := run_bind_eq_ok.mp read
  obtain ⟨flags, second, flagged, read⟩ := run_bind_eq_ok.mp read
  obtain ⟨thisClass, third, this, read⟩ := run_bind_eq_ok.mp read
  obtain ⟨superClass, fourth, super, read⟩ := run_bind_eq_ok.mp read
  obtain ⟨interfaces, fifth, table, read⟩ := run_bind_eq_ok.mp read
  obtain ⟨fields, sixth, -, read⟩ := run_bind_eq_ok.mp read
  obtain ⟨methods, seventh, -, read⟩ := run_bind_eq_ok.mp read
  obtain ⟨attributes, last, -, read⟩ := run_bind_eq_ok.mp read
  obtain ⟨rfl, rfl⟩ := run_pure_eq_ok.mp read
  have superRead := readOptionalName_eq ⟨start.minor, start.major, start.pool, flags, thisClass, superClass, interfaces,
    fields, methods, attributes⟩ super
  rw [ClassFile.header_eq_ok, Header.parse, bind_eq_ok, Header.read, run_bind_of_ok preamble]
  dsimp only at superRead ⊢
  rw [run_bind_of_ok flagged, run_bind_of_ok this]
  simp only [Prod.exists, run_bind_eq_ok, superRead, Reader.check_eq_ok, run_pure_eq_ok, pure_eq_ok]
  constructor
  · rintro ⟨found, left, ⟨superName, _, ⟨supers, rfl⟩, others, _, again, name, _, ⟨named, rfl⟩, names, _,
      ⟨listed, rfl⟩, same, rfl⟩, rfl⟩
    cases table.symm.trans again
    rw [← same]
    exact ⟨named, supers, listed, rfl⟩
  · rintro ⟨named, supers, listed, same⟩
    exact ⟨header, fifth, ⟨header.superName, fourth, ⟨supers, rfl⟩, interfaces, fifth, table, header.name, fifth,
      ⟨named, rfl⟩, header.interfaces, fifth, ⟨listed, rfl⟩, by rw [same], rfl⟩, rfl⟩

end Header

end JarRename
