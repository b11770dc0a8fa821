import JarRename.Proofs.Hierarchy.Build

/-!
**Classes in memory, and a hierarchy over several sources.**

Within one source a class that is inserted again replaces the earlier one and keeps its place; across sources the first
one that has a class counts. Bytes whose header cannot be read are refused and leave nothing behind.

* `Memory.insert_eq_ok`, `Memory.insert_eq_error`: bytes that are taken, and those that are refused;
* `Memory.Reflects`, `Memory.reflects_fill`: what memory holds after any bytes were offered to it;
* `Graph.get?_eq_some_iff`, `Graph.size_build`: the hierarchy over sources whose classes can all be read;
* `Graph.build_memories`: the hierarchy over classes in memory.
-/

namespace JarRename

namespace Memory

variable {memory : Memory} {name : String} {bytes : Bytes}

/-! ### Any bytes offered -/

/-- A name behind others is new if it is none of them. -/
theorem eraseDups_concat (names : List String) (name : String) :
    (names ++ [name]).eraseDups = if name ∈ names then names.eraseDups else names.eraseDups ++ [name] := by
  rw [List.eraseDups_append]
  by_cases known : name ∈ names <;> simp [List.removeAll, known, List.eraseDups_cons]

theorem nodup_eraseDups (names : List String) : names.eraseDups.Nodup := by
  induction names using List.reverseRecOn with
  | nil => exact .nil
  | append_singleton names name ih =>
    rw [eraseDups_concat]
    split_ifs with known
    · exact ih
    · exact List.concat_eq_append ▸ ih.concat (mt List.mem_eraseDups.mp known)

/-- The name in the header of bytes, if there is one that can be read. -/
def nameOf? (bytes : Bytes) : Option String :=
  (Header.parse bytes).toOption.map Header.name

/-- The classes in memory after bytes were offered. -/
def offer (memory : Memory) (bytes : Bytes) : Memory :=
  match insert bytes memory with
  | .ok _ after => after
  | .error _ after => after

/-- The classes in memory after any bytes were offered one after another, to a memory without classes at first. -/
def fill (offered : List Bytes) : Memory :=
  offered.foldl offer {}

theorem nameOf?_eq_some : nameOf? bytes = some name ↔ ∃ header, Header.parse bytes = .ok header ∧ header.name = name := by
  unfold nameOf?
  cases Header.parse bytes <;> simp [Except.toOption]

/-- **Bytes are taken** under the name in their header. -/
theorem insert_eq_ok {after : Memory} :
    insert bytes memory = .ok name after ↔ nameOf? bytes = some name ∧ after = memory.put name bytes := by
  rw [insert, nameOf?]
  cases Header.parse bytes with
  | error cause => simp [Except.toOption]
  | ok header =>
    simp only [EStateM.Result.ok.injEq, Except.toOption, Option.map_some, Option.some.injEq]
    refine and_congr_right fun same => ?_
    rw [same, eq_comm]

/-- **Bytes without a header that can be read are refused**, and leave the memory as it was. -/
theorem insert_eq_error {cause : Fault} {after : Memory} :
    insert bytes memory = .error cause after ↔ Header.parse bytes = .error cause ∧ after = memory := by
  rw [insert]
  cases Header.parse bytes <;> simp [eq_comm]

/-- Bytes that are offered are taken under the name in their header, if there is one. -/
theorem offer_eq (memory : Memory) (bytes : Bytes) :
    memory.offer bytes = (nameOf? bytes).elim memory fun name => memory.put name bytes := by
  rw [offer, insert, nameOf?]
  cases Header.parse bytes <;> rfl

/-- The memory lists each name that was taken once, in order of its first class, and has the last class of it. -/
structure Reflects (memory : Memory) (offered : List Bytes) : Prop where
  names : memory.order.toList = (offered.filterMap nameOf?).eraseDups
  classes : ∀ name, memory.classes[name]? = offered.reverse.find? fun bytes => nameOf? bytes == some name

theorem reflects_empty : Reflects {} [] where
  names := rfl
  classes _ := by simp

/-- The memory has a class exactly for the names that were taken. -/
theorem Reflects.contains_iff {offered : List Bytes} (reflects : memory.Reflects offered) :
    memory.classes.contains name = true ↔ name ∈ offered.filterMap nameOf? := by
  rw [Std.HashMap.contains_eq_isSome_getElem?, reflects.classes, List.find?_isSome, List.mem_filterMap]
  simp only [List.mem_reverse, beq_iff_eq]

/-- **One offer more.** -/
theorem Reflects.offer {offered : List Bytes} (reflects : memory.Reflects offered) (bytes : Bytes) :
    (memory.offer bytes).Reflects (offered ++ [bytes]) := by
  rw [offer_eq]
  cases taken : nameOf? bytes with
  | none =>
    refine ⟨?_, fun name => ?_⟩
    · rw [List.filterMap_append, List.filterMap_cons_none taken, List.filterMap_nil, List.append_nil]
      exact reflects.names
    · rw [List.reverse_append, List.reverse_singleton, List.singleton_append, List.find?_cons, taken]
      exact reflects.classes name
  | some name =>
    refine ⟨?_, fun other => ?_⟩
    · -- a class that is taken again keeps its place among the names, and a new one goes behind them
      have one : [bytes].filterMap nameOf? = [name] := by rw [List.filterMap_cons_some taken, List.filterMap_nil]
      rw [List.filterMap_append, one, eraseDups_concat, ← reflects.names, Option.elim_some, put]
      by_cases known : memory.classes.contains name = true
      · rw [if_pos known, if_pos (reflects.contains_iff.mp known)]
      · rw [if_neg known, if_neg (mt reflects.contains_iff.mpr known), Array.toList_push]
    · rw [List.reverse_append, List.reverse_singleton, List.singleton_append, List.find?_cons, taken,
        ← reflects.classes, Option.elim_some, put, Std.HashMap.getElem?_insert]
      by_cases same : name = other
      · simp [same]
      · simp [beq_false_of_ne same]

/-- **Any bytes offered**, by induction over them. -/
theorem reflects_fill (offered : List Bytes) : (fill offered).Reflects offered := by
  have run (later : List Bytes) {memory : Memory} {offered : List Bytes} (reflects : memory.Reflects offered) :
      (later.foldl Memory.offer memory).Reflects (offered ++ later) := by
    induction later generalizing memory offered with
    | nil => rwa [List.append_nil]
    | cons bytes later ih =>
      have whole := ih (reflects.offer bytes)
      rwa [List.append_assoc, List.singleton_append] at whole
  exact run offered reflects_empty

/-- Each name that memory lists is that in the header of its class. -/
theorem Reflects.exists_header {offered : List Bytes} (reflects : memory.Reflects offered)
    (listed : name ∈ memory.order.toList) :
    ∃ bytes header, memory.classes[name]? = some bytes ∧ Header.parse bytes = .ok header ∧ header.name = name := by
  rw [reflects.names, List.mem_eraseDups, List.mem_filterMap] at listed
  obtain ⟨taken, inside, named⟩ := listed
  have isFound : (offered.reverse.find? fun bytes => nameOf? bytes == some name).isSome = true :=
    List.find?_isSome.mpr ⟨taken, List.mem_reverse.mpr inside, beq_iff_eq.mpr named⟩
  obtain ⟨bytes, last⟩ := Option.isSome_iff_exists.mp isFound
  obtain ⟨header, read, same⟩ := nameOf?_eq_some.mp (by simpa using List.find?_some last)
  exact ⟨bytes, header, (reflects.classes name).trans last, read, same⟩

end Memory

/-! ### The hierarchy over sources -/

namespace Graph

variable {sources : List ClassSource} {graph : Graph} {world final : World} {name : String} {header : Header}
variable (faithful : ∀ source ∈ sources, source.Faithful) (readable : ∀ source ∈ sources, source.Readable)
variable (built : build sources world = .ok graph final)

include faithful readable built

/-- **The first source counts.** A hierarchy over faithful sources whose classes can all be read has the header of a
class from the first source that lists the class. -/
theorem get?_eq_some_iff : graph.get? name = some header ↔
    ∃ source, sources.find? (fun source => name ∈ source.names) = some source ∧
      source.header? name = .ok (some header) := by
  rw [get?_buildAll faithful built]
  clear built faithful
  induction sources with
  | nil => simp
  | cons source sources ih =>
    obtain ⟨readableHere, readableLater⟩ := List.forall_mem_cons.mp readable
    rw [List.findSome?_cons, List.find?_cons]
    by_cases listed : name ∈ source.names
    · obtain ⟨first, read⟩ := readableHere name listed
      rw [ClassSource.listed?_eq_some.mpr ⟨listed, read⟩, decide_eq_true listed]
      simp [read]
    · have missing : source.listed? name = none := if_neg listed
      rw [missing, decide_eq_false listed]
      exact ih readableLater

/-- Such a hierarchy knows the names that its sources list. -/
theorem contains_build (name : String) :
    graph.contains name = true ↔ ∃ source ∈ sources, name ∈ source.names := by
  rw [contains_iff]
  constructor
  · rintro ⟨header, known⟩
    obtain ⟨source, first, -⟩ := (get?_eq_some_iff faithful readable built).mp known
    exact ⟨source, List.mem_of_find?_eq_some first, by simpa using List.find?_some first⟩
  · rintro ⟨source, inside, listed⟩
    have isFound : (sources.find? fun source => name ∈ source.names).isSome = true :=
      List.find?_isSome.mpr ⟨source, inside, decide_eq_true listed⟩
    obtain ⟨first, found⟩ := Option.isSome_iff_exists.mp isFound
    have firstListed : name ∈ first.names := by simpa using List.find?_some found
    obtain ⟨header, read⟩ := readable first (List.mem_of_find?_eq_some found) name firstListed
    exact ⟨header, (get?_eq_some_iff faithful readable built).mpr ⟨first, found, read⟩⟩

/-- Such a hierarchy has as many classes as there are different names in its sources. -/
theorem size_build : graph.size = (sources.flatMap ClassSource.names).eraseDups.length := by
  refine size_eq_length (Memory.nodup_eraseDups _) fun name => ?_
  rw [← contains_iff, contains_build faithful readable built, List.mem_eraseDups, List.mem_flatMap]

end Graph

/-! ### The hierarchy over classes in memory -/

namespace ClassSource

/-- The source of the classes in memory after any bytes were offered. -/
def inMemory (offered : List Bytes) : ClassSource :=
  memory (Memory.fill offered)

variable {offered : List Bytes} {name : String} {header : Header}

theorem classBytes?_inMemory (offered : List Bytes) (name : String) : (inMemory offered).classBytes? name =
    .ok (offered.reverse.find? fun bytes => Memory.nameOf? bytes == some name) :=
  congrArg Except.ok ((Memory.reflects_fill offered).classes name)

/-- A class in memory has the header in its bytes. -/
theorem header?_inMemory : (inMemory offered).header? name = .ok (some header) ↔
    ∃ bytes, (inMemory offered).classBytes? name = .ok (some bytes) ∧ Header.parse bytes = .ok header := by
  cases found : (offered.reverse.find? fun bytes => Memory.nameOf? bytes == some name) with
  | none => simp [header?, classBytes?_inMemory, found, bind, Except.bind, pure, Except.pure]
  | some bytes =>
    have held := classBytes?_inMemory offered name
    rw [found] at held
    rw [header?_eq_ok held, held]
    simp

theorem readable_inMemory (offered : List Bytes) : (inMemory offered).Readable := by
  intro name listed
  obtain ⟨bytes, header, held, read, -⟩ := (Memory.reflects_fill offered).exists_header listed
  exact ⟨header, header?_inMemory.mpr ⟨bytes, congrArg Except.ok held, read⟩⟩

theorem faithful_inMemory (offered : List Bytes) : (inMemory offered).Faithful := by
  intro name listed header known
  obtain ⟨bytes, first, held, read, same⟩ := (Memory.reflects_fill offered).exists_header listed
  obtain ⟨other, again, readAgain⟩ := header?_inMemory.mp known
  cases (congrArg Except.ok held).symm.trans again
  cases read.symm.trans readAgain
  exact same

end ClassSource

namespace Graph

open ClassSource

/-- **The last class of a name counts within one source, the first source across sources.** Each source lists the
accepted names once, in order of their first class, and has the last class of each; refused bytes change nothing. The
hierarchy over the sources is built, has one class for each different name, and has it from the first source with the
name. -/
theorem build_memories (providers : List (List Bytes)) (world : World) :
    (∀ offered ∈ providers,
      (inMemory offered).names.Nodup ∧
      (inMemory offered).names = (offered.filterMap Memory.nameOf?).eraseDups ∧
      (∀ name, (inMemory offered).classBytes? name =
        .ok (offered.reverse.find? fun bytes => Memory.nameOf? bytes == some name)) ∧
      (∀ bytes name after, Memory.insert bytes (Memory.fill offered) = .ok name after ↔
        Memory.nameOf? bytes = some name ∧ after = (Memory.fill offered).put name bytes) ∧
      ∀ bytes cause after, Memory.insert bytes (Memory.fill offered) = .error cause after ↔
        Header.parse bytes = .error cause ∧ after = Memory.fill offered) ∧
    ∃ graph final, build (providers.map inMemory) world = .ok graph final ∧
      graph.size = ((providers.map inMemory).flatMap ClassSource.names).eraseDups.length ∧
      (∀ name, graph.contains name = true ↔ ∃ offered ∈ providers, name ∈ (inMemory offered).names) ∧
      ∀ name header, graph.get? name = some header ↔
        ∃ offered bytes, providers.find? (fun offered => name ∈ (inMemory offered).names) = some offered ∧
          (inMemory offered).classBytes? name = .ok (some bytes) ∧ Header.parse bytes = .ok header := by
  have faithful : ∀ source ∈ providers.map inMemory, source.Faithful :=
    List.forall_mem_map.mpr fun offered _ => faithful_inMemory offered
  have readable : ∀ source ∈ providers.map inMemory, source.Readable :=
    List.forall_mem_map.mpr fun offered _ => readable_inMemory offered
  obtain ⟨graph, final, built⟩ := exists_buildAll world readable
  refine ⟨fun offered _ => ?_, graph, final, built, size_build faithful readable built, fun name => ?_,
    fun name header => ?_⟩
  · have reflects := Memory.reflects_fill offered
    have names : (inMemory offered).names = (offered.filterMap Memory.nameOf?).eraseDups := reflects.names
    exact ⟨names ▸ Memory.nodup_eraseDups _, names, classBytes?_inMemory offered,
      fun _ _ _ => Memory.insert_eq_ok, fun _ _ _ => Memory.insert_eq_error⟩
  · simp only [contains_build faithful readable built, List.mem_map, exists_exists_and_eq_and]
  · rw [get?_eq_some_iff faithful readable built, List.find?_map]
    simp only [Option.map_eq_some_iff, exists_exists_and_eq_and, header?_inMemory, exists_and_left]
    rfl

end Graph

end JarRename
