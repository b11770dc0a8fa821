import JarRename.Proofs.Archive.Outputs
import JarRename.Proofs.Hierarchy.Build
import JarRename.Proofs.Hierarchy.Renamed
import JarRename.Proofs.Renaming.Header

/-!
**The hierarchy that a second stage sees.**

A stage renames the jar that the stage before it wrote, and asks about the hierarchy of that jar. A class of a jar
moves with its name, and its header is renamed with it. So the hierarchy of the output is that of the input with all
names renamed, if every class stands at the path of its name.

* `Graph.HoldsRenamed`: a graph with exactly the renamed classes of another;
* `Archive.Laid`, `Archive.Laid.moved`: jars whose classes stand at the paths of their names, and a class of such a
  jar before and after;
* `Archive.Laid.carried`, `Archive.Laid.exists_name`: the classes of the input and those of the output;
* `Archive.hierarchy_of_rename`: the hierarchies of both.
-/

namespace JarRename

/-! ### Renamed hierarchies -/

namespace Graph

/-- The other graph holds the classes of a graph with all names renamed, and no other classes. -/
structure HoldsRenamed (rename : String → String) (graph other : Graph) : Prop where
  known : ∀ name header, graph.get? name = some header → other.get? (rename name) = some (header.rename rename)
  only : ∀ new header, other.get? new = some header →
    ∃ name old, graph.get? name = some old ∧ rename name = new ∧ old.rename rename = header

namespace HoldsRenamed

variable {rename : String → String} {graph other : Graph}

/-- A renaming that keeps the names of a graph apart keeps the number of its classes. -/
theorem size_eq (holds : HoldsRenamed rename graph other) (injective : Set.InjOn rename {name | graph.Mentions name}) :
    other.size = graph.size := by
  have inside (name : String) (member : name ∈ graph.names) : graph.Mentions name := by
    obtain ⟨header, found⟩ := (mem_names graph name).mp member
    exact ⟨name, header, found, .inl rfl⟩
  have distinct : (graph.names.map rename).Nodup :=
    graph.nodup_names.map_on fun first one second two => injective (inside first one) (inside second two)
  have known (new : String) : new ∈ graph.names.map rename ↔ ∃ header, other.get? new = some header := by
    rw [List.mem_map]
    constructor
    · rintro ⟨name, member, rfl⟩
      obtain ⟨header, known⟩ := (mem_names graph name).mp member
      exact ⟨_, holds.known name header known⟩
    · rintro ⟨header, found⟩
      obtain ⟨name, old, known, renamed, -⟩ := holds.only new header found
      exact ⟨name, (mem_names graph name).mpr ⟨old, known⟩, renamed⟩
  calc other.size = (graph.names.map rename).length := size_eq_length distinct known
    _ = graph.names.length := List.length_map _
    _ = graph.size := length_names graph

/-- A renaming that keeps the names of a graph apart leaves unknown classes unknown. -/
theorem image (holds : HoldsRenamed rename graph other) (injective : Set.InjOn rename {name | graph.Mentions name}) :
    Image rename {name | graph.Mentions name} graph other where
  injective := injective
  closed := fun _ mentioned => mentioned
  get? := by
    intro name mentioned
    cases known : graph.get? name with
    | some header => exact holds.known name header known
    | none =>
      refine Option.eq_none_iff_forall_ne_some.mpr fun header found => ?_
      obtain ⟨other, old, otherKnown, same, -⟩ := holds.only (rename name) header found
      have equal : other = name := injective ⟨other, old, otherKnown, .inl rfl⟩ mentioned same
      rw [equal, known] at otherKnown
      cases otherKnown

end HoldsRenamed

end Graph

/-! ### Jars laid out by name -/

namespace Archive

/-- An entry of a jar is a class with a header. -/
structure ClassIn (entries : List Jar.Entry) (entry : Jar.Entry) (header : Header) : Prop where
  member : entry ∈ entries
  isClass : entry.isClass = true
  parsed : Header.parse entry.data = .ok header

/-- The classes of a jar stand at the paths of their names and name no arrays, and a renaming leaves the classes at the
root in the hierarchy or outside it. -/
structure Laid (rename : String → String) (entries : List Jar.Entry) : Prop where
  stands : ∀ entry header, ClassIn entries entry header → Jar.StandsAt entry.name header.name
  plain : ∀ entry header, ClassIn entries entry header → ∀ name ∈ header.names, Renamer.isArray name = false
  stays : ∀ entry header, ClassIn entries entry header → entry.name = Jar.rootPath header.name →
    (Jar.className? (Jar.rootPath (rename header.name))).isSome = (Jar.className? (Jar.rootPath header.name)).isSome

/-- A class that moves stays in the hierarchy or outside it, wherever it stands. -/
theorem Laid.isSome_className? {rename : String → String} {entries : List Jar.Entry} (laid : Laid rename entries)
    {entry : Jar.Entry} {header : Header} (classIn : ClassIn entries entry header) :
    (Jar.className? (Jar.movedName entry.name header.name (rename header.name))).isSome =
      (Jar.className? entry.name).isSome := by
  have stands := laid.stands entry header classIn
  by_cases outside : Jar.metaStart.isPrefixOf entry.name.toList = true
  · have before : Jar.className? entry.name = none := by
      refine Option.eq_none_iff_forall_ne_some.mpr fun name found => ?_
      exact Jar.atRoot_of_className? found outside
    rw [before, Jar.className?_movedName outside stands]
  · have path : entry.name = Jar.rootPath header.name := by
      rw [Jar.StandsAt, if_neg outside] at stands
      exact stands
    have stays := laid.stays entry header classIn path
    rw [path, Jar.movedName_root]
    exact stays

/-- A class of a hierarchy is renamed as a class. -/
theorem isClass_of_className? {entry : Jar.Entry} {name : String} (found : Jar.className? entry.name = some name) :
    entry.isClass = true := by
  have path := (Jar.className?_eq_some.mp found).1
  have noDirectory : entry.isDirectory = false := by
    rw [Jar.Entry.isDirectory, path, Jar.toList_rootPath]
    have last : (name.toList ++ Jar.classEnding).getLast? = some 's' := by
      rw [List.getLast?_append]
      rfl
    rw [last]
    decide
  rw [Jar.Entry.isClass, noDirectory, Jar.isClassEntry_of_className? found]
  rfl

/-- A jar has a class under a name, and another jar has the renamed class under the new name. -/
structure Carried (rename : String → String) (input output : ClassSource) (name : String) (header : Header) : Prop where
  own : header.name = name
  before : input.header? name = .ok (some header)
  member : rename name ∈ output.names
  after : output.header? (rename name) = .ok (some (header.rename rename))

namespace Laid

variable {renamer : Renamer} {input output : String} {entries outputs : List Jar.Entry} {entry target : Jar.Entry}
variable {name : String} {order next : Jar.Order}

/-- **A class before and after.** It moves with its name, and its header is renamed. -/
theorem moved (laid : Laid (renameOrKeep renamer.mapClass) entries) (member : entry ∈ entries)
    (isClass : entry.isClass = true) (converts : Converts renamer input entry target) :
    ∃ header bytes, ClassIn entries entry header ∧ entry.readFrom input = .ok entry.data ∧
      target.name = Jar.movedName entry.name header.name (renameOrKeep renamer.mapClass header.name) ∧
      (∀ place, target.readFrom place = .ok bytes) ∧
      Header.parse bytes = .ok (header.rename (renameOrKeep renamer.mapClass)) := by
  obtain ⟨renamed, accepted, reads, named, written⟩ := renamed_of_converts converts isClass
  obtain ⟨header, parsed, oldName, after⟩ := ClassFile.header_of_renameBytes accepted
  have inside : ClassIn entries entry header := ⟨member, isClass, parsed⟩
  obtain ⟨newName, again⟩ := after (laid.plain entry header inside)
  rw [oldName, newName] at named
  exact ⟨header, renamed.bytes, inside, reads, named, written, again⟩

/-- **Every class of the input** is in the output under its new name. -/
theorem carried (laid : Laid (renameOrKeep renamer.mapClass) entries)
    (converts : List.Forall₂ (Converts renamer input) entries outputs)
    (distinct : (outputs.map Jar.Entry.name).Nodup) (output : String) (next : Jar.Order)
    (listed : name ∈ (ClassSource.jar input entries order).names) :
    ∃ header, Carried (renameOrKeep renamer.mapClass) (.jar input entries order) (.jar output outputs next) name
      header := by
  obtain ⟨entry, member, path, found⟩ := ClassSource.exists_find? listed
  have stands : Jar.className? entry.name = some name := by
    obtain ⟨other, -, otherName⟩ := ClassSource.mem_names_jar.mp listed
    rw [path, ← (Jar.className?_eq_some.mp otherName).1, otherName]
  obtain ⟨target, inside, becomes⟩ := exists_of_forall₂ converts member
  obtain ⟨header, bytes, classIn, reads, moved, written, again⟩ :=
    laid.moved member (isClass_of_className? stands) becomes
  have own : header.name = name := Jar.name_of_standsAt stands (laid.stands entry header classIn)
  have newPath : target.name = Jar.rootPath (renameOrKeep renamer.mapClass name) := by
    rw [moved, path, own, Jar.movedName_root]
  have stays := laid.isSome_className? classIn
  rw [← moved, stands, Option.isSome_some, Option.isSome_iff_exists] at stays
  obtain ⟨new, newStands⟩ := stays
  have newName : new = renameOrKeep renamer.mapClass name := by
    rw [newPath] at newStands
    exact (Jar.rootPath_injective (Jar.className?_eq_some.mp newStands).1).symm
  refine ⟨header, own, ?_, ?_, ?_⟩
  · exact (ClassSource.header?_jar found).mpr ⟨entry.data, reads, classIn.parsed⟩
  · exact ClassSource.mem_names_jar.mpr ⟨target, inside, newName ▸ newStands⟩
  · have foundAgain := ClassSource.find?_of_nodup distinct inside
    rw [newPath] at foundAgain
    exact (ClassSource.header?_jar foundAgain).mpr ⟨bytes, written output, again⟩

/-- **Every class of the output** is there under the new name of a class of the input. -/
theorem exists_name (laid : Laid (renameOrKeep renamer.mapClass) entries)
    (converts : List.Forall₂ (Converts renamer input) entries outputs) {new : String}
    (listed : new ∈ (ClassSource.jar output outputs next).names) :
    ∃ name ∈ (ClassSource.jar input entries order).names, renameOrKeep renamer.mapClass name = new := by
  obtain ⟨target, inside, found⟩ := ClassSource.mem_names_jar.mp listed
  obtain ⟨entry, member, becomes⟩ := exists_of_forall₂ converts.flip inside
  by_cases isClass : entry.isClass = true
  · obtain ⟨header, -, classIn, -, moved, -⟩ := laid.moved member isClass becomes
    have stands := laid.stands entry header classIn
    have stays := laid.isSome_className? classIn
    rw [← moved, found, Option.isSome_some, eq_comm, Option.isSome_iff_exists] at stays
    obtain ⟨name, oldFound⟩ := stays
    have own : header.name = name := Jar.name_of_standsAt oldFound stands
    refine ⟨name, ClassSource.mem_names_jar.mpr ⟨entry, member, oldFound⟩, ?_⟩
    rw [moved, (Jar.className?_eq_some.mp oldFound).1, own, Jar.movedName_root] at found
    exact Jar.rootPath_injective (Jar.className?_eq_some.mp found).1
  · -- an entry that is no class keeps its name, which is that of no class
    rw [name_of_converts becomes (Bool.not_eq_true _ ▸ isClass)] at found
    exact absurd (isClass_of_className? found) isClass

end Laid

/-! ### Both hierarchies -/

/-- **The hierarchy that a second stage sees** is the hierarchy of the first with all names renamed, in whatever orders
the two jars tell their names. -/
theorem hierarchy_of_rename (resolver : Resolver) (order next : Jar.Order) {start middle world later : World} {input output : String}
    {entries : List Jar.Entry} {graph : Graph} {summary : Summary} (read : world.files.readJar input = .ok entries)
    (laid : Laid (renameOrKeep resolver.class?) entries)
    (injective : Set.InjOn (renameOrKeep resolver.class?) {name | graph.Mentions name})
    (built : Graph.build [.jar input entries order] start = .ok graph middle)
    (done : rename resolver.renamer input output world = .ok summary later) :
    ∃ outputs other final, later.files.readJar output = .ok outputs ∧
      Graph.build [.jar output outputs next] later = .ok other final ∧ other.size = graph.size ∧
      Graph.HoldsRenamed (renameOrKeep resolver.class?) graph other ∧
      Graph.Image (renameOrKeep resolver.class?) {name | graph.Mentions name} graph other := by
  obtain ⟨outputs, written, converts, distinct⟩ := outputs_of_rename read done
  have carried (name : String) (listed : name ∈ (ClassSource.jar input entries order).names) : ∃ header,
      Carried (renameOrKeep resolver.class?) (.jar input entries order) (.jar output outputs next) name header :=
    laid.carried converts distinct output next listed
  have origin (new : String) (listed : new ∈ (ClassSource.jar output outputs next).names) :
      ∃ name ∈ (ClassSource.jar input entries order).names, renameOrKeep resolver.class? name = new :=
    laid.exists_name converts listed
  have faithful : (ClassSource.jar input entries order).Faithful := by
    intro name listed header found
    obtain ⟨own, same⟩ := carried name listed
    cases found.symm.trans same.before
    exact same.own
  have faithfulAfter : (ClassSource.jar output outputs next).Faithful := by
    intro new listed header found
    obtain ⟨name, oldListed, rfl⟩ := origin new listed
    obtain ⟨old, same⟩ := carried name oldListed
    cases found.symm.trans same.after
    exact congrArg (renameOrKeep resolver.class?) same.own
  obtain ⟨other, final, builtAfter⟩ := Graph.exists_build later fun new listed => by
    obtain ⟨name, oldListed, rfl⟩ := origin new listed
    obtain ⟨old, same⟩ := carried name oldListed
    exact ⟨_, same.after⟩
  have holds : Graph.HoldsRenamed (renameOrKeep resolver.class?) graph other := by
    constructor
    case known =>
      intro name header found
      obtain ⟨listed, before⟩ := (Graph.get?_build faithful built).mp found
      obtain ⟨same, both⟩ := carried name listed
      cases before.symm.trans both.before
      exact (Graph.get?_build faithfulAfter builtAfter).mpr ⟨both.member, both.after⟩
    case only =>
      intro new header found
      obtain ⟨listed, after⟩ := (Graph.get?_build faithfulAfter builtAfter).mp found
      obtain ⟨name, oldListed, rfl⟩ := origin new listed
      obtain ⟨old, both⟩ := carried name oldListed
      cases after.symm.trans both.after
      exact ⟨name, old, (Graph.get?_build faithful built).mpr ⟨oldListed, both.before⟩, rfl, rfl⟩
  exact ⟨outputs, other, final, written, builtAfter, holds.size_eq injective, holds, holds.image injective⟩

/-! ### A jar with two classes -/

/-- A class `C` with the superclass `A`, which is also its interface. -/
def heirBytes : Bytes :=
  [0xCA, 0xFE, 0xBA, 0xBE, 0x00, 0x00, 0x00, 0x34, 0x00, 0x05,
    0x01, 0x00, 0x01, 0x43,
    0x07, 0x00, 0x01,
    0x01, 0x00, 0x01, 0x41,
    0x07, 0x00, 0x03,
    0x00, 0x21, 0x00, 0x02, 0x00, 0x04, 0x00, 0x01, 0x00, 0x04, 0x00, 0x00, 0x00, 0x00, 0x00, 0x00]

/-- The classes `A` and `C`, and another `A` for a particular version. -/
def stagedJar : List Jar.Entry :=
  [plainEntry "A.class" ClassFile.sampleBytes, plainEntry "C.class" heirBytes,
    plainEntry "META-INF/versions/9/A.class" ClassFile.sampleBytes]

/-- The jar in the working directory. -/
def stagedWorld : World where
  files := { nodes := [(["staged.jar"], .file (.jar stagedJar))] }

/-- The header of the class `A`. -/
def sampleHeader : Header where
  name := "A"
  superName := none
  interfaces := []
  flags := 0x21

/-- The header of the class `C`. -/
def heirHeader : Header where
  name := "C"
  superName := some "A"
  interfaces := ["A"]
  flags := 0x21

theorem ready_staged : Ready stagedWorld.files "staged.jar" "out.jar" stagedJar where
  read := by decide +kernel
  sound := by decide +kernel
  temporary := by decide +kernel
  writable := by
    have wrote : stagedWorld.files.write "out.jar" (.raw []) =
        .ok (stagedWorld.files.put ["out.jar"] (.file (.raw []))) := by decide +kernel
    exact Files.exists_write wrote

theorem renamable_staged : Renamable ClassFile.sampleRenamer stagedJar where
  accepted := by
    have checked : ∀ entry ∈ stagedJar, accepts ClassFile.sampleRenamer entry = true := by decide +kernel
    exact fun entry member => accepted_of_accepts (checked entry member)
  distinct := by decide +kernel

theorem classIn_staged {entry : Jar.Entry} {header : Header} (classIn : ClassIn stagedJar entry header) :
    (entry.name = "A.class" ∨ entry.name = "META-INF/versions/9/A.class") ∧ header = sampleHeader ∨
      entry.name = "C.class" ∧ header = heirHeader := by
  have sampleParsed : Header.parse ClassFile.sampleBytes = .ok sampleHeader := by decide +kernel
  have heirParsed : Header.parse heirBytes = .ok heirHeader := by decide +kernel
  obtain ⟨member, -, parsed⟩ := classIn
  simp only [stagedJar, List.mem_cons, List.not_mem_nil, or_false] at member
  rcases member with rfl | rfl | rfl
  · exact .inl ⟨.inl rfl, Except.ok.inj (parsed.symm.trans sampleParsed)⟩
  · exact .inr ⟨rfl, Except.ok.inj (parsed.symm.trans heirParsed)⟩
  · exact .inl ⟨.inr rfl, Except.ok.inj (parsed.symm.trans sampleParsed)⟩

theorem laid_staged : Laid (renameOrKeep ClassFile.sampleRenamer.mapClass) stagedJar where
  stands := by
    intro entry header classIn
    rcases classIn_staged classIn with ⟨name | name, rfl⟩ | ⟨name, rfl⟩
    · rw [name, Jar.StandsAt, if_neg (by decide +kernel)]
      decide +kernel
    · rw [name, Jar.StandsAt, if_pos (by decide +kernel)]
      exact ⟨"META-INF/versions/9/".toList, by decide +kernel, by decide +kernel⟩
    · rw [name, Jar.StandsAt, if_neg (by decide +kernel)]
      decide +kernel
  plain := by
    intro entry header classIn
    rcases classIn_staged classIn with ⟨-, rfl⟩ | ⟨-, rfl⟩ <;> decide +kernel
  stays := by
    intro entry header classIn _
    rcases classIn_staged classIn with ⟨-, rfl⟩ | ⟨-, rfl⟩ <;> decide +kernel

theorem names_staged (order : Jar.Order) {name : String} :
    name ∈ (ClassSource.jar "staged.jar" stagedJar order).names ↔ name = "A" ∨ name = "C" := by
  have first : (ClassSource.jar "staged.jar" stagedJar .first).names = ["A", "C"] := by decide +kernel
  rw [ClassSource.mem_names_reordered .first order, first, List.mem_pair]

theorem header?_staged (order : Jar.Order) :
    (ClassSource.jar "staged.jar" stagedJar order).header? "A" = .ok (some sampleHeader) ∧
      (ClassSource.jar "staged.jar" stagedJar order).header? "C" = .ok (some heirHeader) := by
  have sampleFound : Jar.find? stagedJar (Jar.rootPath "A") = some (plainEntry "A.class" ClassFile.sampleBytes) := by
    decide +kernel
  have heirFound : Jar.find? stagedJar (Jar.rootPath "C") = some (plainEntry "C.class" heirBytes) := by decide +kernel
  exact ⟨(ClassSource.header?_jar sampleFound).mpr ⟨ClassFile.sampleBytes, rfl, by decide +kernel⟩,
    (ClassSource.header?_jar heirFound).mpr ⟨heirBytes, rfl, by decide +kernel⟩⟩

/-- The hierarchy of the jar has the classes `A` and `C` and mentions no others. -/
theorem exists_staged (order : Jar.Order) : ∃ graph middle,
    Graph.build [.jar "staged.jar" stagedJar order] stagedWorld = .ok graph middle ∧
    graph.get? "A" = some sampleHeader ∧ graph.get? "C" = some heirHeader ∧
    ∀ name, graph.Mentions name → name = "A" ∨ name = "C" := by
  obtain ⟨sampleRead, heirRead⟩ := header?_staged order
  have known (name : String) (listed : name ∈ (ClassSource.jar "staged.jar" stagedJar order).names) :
      name = "A" ∨ name = "C" := (names_staged order).mp listed
  have faithful : (ClassSource.jar "staged.jar" stagedJar order).Faithful := by
    intro name listed header found
    rcases known name listed with rfl | rfl
    · cases found.symm.trans sampleRead
      rfl
    · cases found.symm.trans heirRead
      rfl
  obtain ⟨graph, middle, built⟩ := Graph.exists_build stagedWorld fun name listed => by
    rcases known name listed with rfl | rfl
    · exact ⟨sampleHeader, sampleRead⟩
    · exact ⟨heirHeader, heirRead⟩
  refine ⟨graph, middle, built, ?_, ?_, ?_⟩
  · exact (Graph.get?_build faithful built).mpr ⟨(names_staged order).mpr (.inl rfl), sampleRead⟩
  · exact (Graph.get?_build faithful built).mpr ⟨(names_staged order).mpr (.inr rfl), heirRead⟩
  · rintro name ⟨owner, header, found, mentioned⟩
    obtain ⟨listed, read⟩ := (Graph.get?_build faithful built).mp found
    rcases known owner listed with rfl | rfl
    · cases read.symm.trans sampleRead
      simp only [sampleHeader, List.not_mem_nil, reduceCtorEq, or_false, or_self] at mentioned
      exact .inl mentioned
    · cases read.symm.trans heirRead
      simp only [heirHeader, Option.some.injEq, List.mem_singleton, eq_comm] at mentioned
      tauto

/-- The second stage sees the class `B` and its heir `C`. -/
theorem hierarchy_of_rename_staged : ∃ table graph middle summary later outputs other final,
    Table.ofEntries mixedEntries .forward = .ok table ∧
    Graph.build [.jar "staged.jar" stagedJar .first] stagedWorld = .ok graph middle ∧
    rename (Resolver.mk table {}).renamer "staged.jar" "out.jar" stagedWorld = .ok summary later ∧
    later.files.readJar "out.jar" = .ok outputs ∧ Graph.build [.jar "out.jar" outputs .first] later = .ok other final ∧
    other.size = graph.size ∧ other.get? "B" = some { sampleHeader with name := "B" } ∧
    other.get? "C" = some { heirHeader with superName := some "B", interfaces := ["B"] } := by
  obtain ⟨table, read, answers⟩ := exists_mixed
  have classes : (Resolver.mk table {}).class? = ClassFile.sampleRenamer.mapClass := congrArg Renamer.mapClass answers
  obtain ⟨graph, middle, built, sampleKnown, heirKnown, mentions⟩ := exists_staged .first
  have injective : Set.InjOn (renameOrKeep ClassFile.sampleRenamer.mapClass) {name | graph.Mentions name} := by
    intro first one second two
    rcases mentions first one with rfl | rfl <;> rcases mentions second two with rfl | rfl <;> decide +kernel
  obtain ⟨summary, later, done⟩ := exists_rename ready_staged renamable_staged
  rw [← answers] at done
  obtain ⟨outputs, other, final, written, builtAfter, size, holds, -⟩ :=
    hierarchy_of_rename (Resolver.mk table {}) .first .first ready_staged.read (classes ▸ laid_staged)
      (classes ▸ injective) built done
  rw [classes] at holds
  refine ⟨table, graph, middle, summary, later, outputs, other, final, read, built, done, written, builtAfter, size,
    ?_, ?_⟩
  · have renamed : sampleHeader.rename (renameOrKeep ClassFile.sampleRenamer.mapClass) =
        { sampleHeader with name := "B" } := by decide +kernel
    rw [← renamed]
    exact holds.known "A" sampleHeader sampleKnown
  · have renamed : heirHeader.rename (renameOrKeep ClassFile.sampleRenamer.mapClass) =
        { heirHeader with superName := some "B", interfaces := ["B"] } := by decide +kernel
    rw [← renamed]
    exact holds.known "C" heirHeader heirKnown

end Archive

end JarRename
