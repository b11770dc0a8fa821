import JarRename.Proofs.Hierarchy.Build
import JarRename.Proofs.Renaming.Header

/-!
**What is indexed is what is renamed.**

A hierarchy is built before any class is renamed, from headers that are read without the rest of their class files. The
two readers look names up at different times: the one that reads headers alone looks up the superclass before it reads
the interfaces, and the other one looks up no name at all until it is asked. They still agree on every class file that
is accepted, also on those whose header cannot be read because a name in it is no text.

* `Graph.exists_addFrom_of_bytes`: what a hierarchy takes up from the bytes of a class;
* `ClassFile.header_indexed`: the header in bytes and the header of the class file in them.
-/

namespace JarRename

/-- A hierarchy takes up the header in the bytes that a source has for a name. -/
theorem Graph.exists_addFrom_of_bytes {source : ClassSource} {name : String} {bytes : Bytes}
    (found : source.classBytes? name = .ok (some bytes)) {graph later : Graph} :
    (∃ new, addFrom source graph name = .ok (later, new)) ↔
      ∃ header, Header.parse bytes = .ok header ∧ graph.insert header = later := by
  rw [exists_addFrom_iff]
  simp only [ClassSource.header?_eq_ok found]
  constructor
  · rintro ⟨_, ⟨header, parsed, rfl⟩, rfl⟩
    exact ⟨header, parsed, rfl⟩
  · rintro ⟨header, parsed, rfl⟩
    exact ⟨some header, ⟨header, parsed, rfl⟩, rfl⟩

namespace ClassFile

/-- **The header in the bytes of a class file** is that of the class, and one can be read exactly if the other can,
which is if all names in it are texts. So a hierarchy takes up the header of the class from any source that has these
bytes, and a renaming of the bytes starts from the name in it. -/
theorem header_indexed {bytes : Bytes} {file : ClassFile} (parsed : parse bytes = .ok file) :
    (∀ header, Header.parse bytes = .ok header ↔ file.header = .ok header) ∧
    ((∃ header, Header.parse bytes = .ok header) ↔
      ∀ index ∈ file.headerIndices, ∃ name, file.pool.className index = .ok name) ∧
    (∀ (source : ClassSource) name, source.classBytes? name = .ok (some bytes) → ∀ graph later,
      (∃ new, Graph.addFrom source graph name = .ok (later, new)) ↔
        ∃ header, file.header = .ok header ∧ graph.insert header = later) ∧
    ∀ renamer renamed, renameBytes renamer bytes = .ok renamed →
      ∃ header, file.header = .ok header ∧ renamed.oldName = header.name := by
  have agree (header : Header) : Header.parse bytes = .ok header ↔ file.header = .ok header :=
    Header.parse_of_read (read_of_parse parsed)
  refine ⟨agree, ?_, fun source name found graph later => ?_, fun renamer renamed done => ?_⟩
  · simp only [agree, exists_header_iff]
  · simp only [Graph.exists_addFrom_of_bytes found, agree]
  · obtain ⟨header, read, same, -⟩ := header_of_renameBytes done
    exact ⟨header, (agree header).mp read, same⟩

/-! ### Two class files -/

/-- A class `C` without a superclass that names an interface twice. The last byte of the pool is that of the name of the
interface. -/
def twiceBytes (letter : UInt8) : Bytes :=
  [0xCA, 0xFE, 0xBA, 0xBE, 0x00, 0x00, 0x00, 0x34, 0x00, 0x05,
    0x01, 0x00, 0x01, 0x43,
    0x07, 0x00, 0x01,
    0x07, 0x00, 0x04,
    0x01, 0x00, 0x01, letter,
    0x00, 0x21, 0x00, 0x02, 0x00, 0x00, 0x00, 0x02, 0x00, 0x03, 0x00, 0x03, 0x00, 0x00, 0x00, 0x00, 0x00, 0x00]

/-- The class file in these bytes. -/
def twice (letter : UInt8) : ClassFile where
  minor := 0
  major := 52
  pool.slots := #[.utf8 [0x43], .classRef 1, .classRef 4, .utf8 [letter]]
  flags := 0x0021
  thisClass := 2
  superClass := none
  interfaces := [3, 3]
  fields := []
  methods := []
  attributes := []

/-- The name of the interface is `I` in one of the class files and no text in the other. -/
theorem header_indexed_twice :
    (parse (twiceBytes 0x49) = .ok (twice 0x49) ∧
      Header.parse (twiceBytes 0x49) =
        .ok { name := "C", superName := none, interfaces := ["I", "I"], flags := 0x0021 }) ∧
    parse (twiceBytes 0x80) = .ok (twice 0x80) ∧ ∀ header, Header.parse (twiceBytes 0x80) ≠ .ok header := by
  have parsed : parse (twiceBytes 0x49) = .ok (twice 0x49) := by decide +kernel
  have nameless : parse (twiceBytes 0x80) = .ok (twice 0x80) := by decide +kernel
  obtain ⟨agree, -⟩ := header_indexed parsed
  obtain ⟨-, readable, -⟩ := header_indexed nameless
  refine ⟨⟨parsed, (agree _).mpr (by decide +kernel)⟩, nameless, fun header read => ?_⟩
  obtain ⟨name, named⟩ := readable.mp ⟨header, read⟩ 3 (by decide)
  have failed : (twice 0x80).pool.className 3 = .error (.badLead 0x80 0) := by decide +kernel
  cases named.symm.trans failed

end ClassFile

end JarRename
