import JarRename.ClassSource
import JarRename.Proofs.Hierarchy.Graph
import JarRename.Proofs.Jar.Name
import JarRename.Proofs.Outcome
import Mathlib.Data.List.Nodup
import Mathlib.Data.List.ReduceOption

/-!
**What a built hierarchy holds.**

A hierarchy is built from the headers of the classes of sources, in order, and the first header of a name stays. If
every class stands under the name in its header, the order within a source makes no difference: the hierarchy holds the
header of each class under its name, from the first source that has it, and nothing else.

* `ClassSource.headers`, `Graph.exists_build_iff`: the headers of sources, and the hierarchy built from them;
* `ClassSource.Faithful`, `Graph.get?_buildAll`: sources whose classes stand under their names;
* `ClassSource.Apart`, `Graph.exists_build_reordered`: sources that have one header for each name, and jars of this
  kind, whose order makes no difference;
* `ClassSource.Readable`, `Graph.exists_buildAll`: sources whose classes can all be read;
* `ClassSource.mem_names_jar`, `ClassSource.header?_jar`: the classes of a jar and their headers.
-/

namespace JarRename

/-! ### The headers of a source -/

/-- The header of a class of a source, if the source has the class. -/
def ClassSource.header? (source : ClassSource) (name : String) : Except Error (Option Header) := do
  match ← source.classBytes? name with
  | none => return none
  | some bytes =>
    let header ← (Header.parse bytes).mapError (.malformedClass (source.describe ++ "!" ++ name ++ ".class"))
    return some header

/-- The headers of all classes of a source, in order. -/
def ClassSource.headers (source : ClassSource) : Except Error (List Header) := do
  return (← source.names.mapM source.header?).reduceOption

/-- The header of a class is the one in its bytes. -/
theorem ClassSource.header?_eq_ok {source : ClassSource} {name : String} {bytes : Bytes}
    (found : source.classBytes? name = .ok (some bytes)) {header? : Option Header} :
    source.header? name = .ok header? ↔ ∃ header, Header.parse bytes = .ok header ∧ some header = header? := by
  rw [ClassSource.header?, found]
  show ((Header.parse bytes).mapError _ >>= fun header => pure (some header)) = .ok header? ↔ _
  simp only [bind_eq_ok, mapError_eq_ok, pure_eq_ok]

namespace Graph

variable {graph later : Graph} {source : ClassSource} {names : List String} {name : String} {header : Header}

/-- **One class more.** The graph has its header, if the source has the class. -/
theorem exists_addFrom_iff : (∃ new, addFrom source graph name = .ok (later, new)) ↔
    ∃ header?, source.header? name = .ok header? ∧ graph.insertAll header?.toList = later := by
  have opened : addFrom source graph name = source.header? name >>= fun header? =>
      .ok (graph.insertAll header?.toList,
        header?.elim 0 fun header => if graph.contains header.name then 0 else 1) := by
    unfold addFrom ClassSource.header?
    cases source.classBytes? name with
    | error error => rfl
    | ok bytes? =>
      cases bytes? with
      | none => rfl
      | some bytes =>
        rw [ok_bind, ok_bind]
        dsimp only
        cases Header.parse bytes <;> rfl
  rw [opened]
  constructor
  · rintro ⟨new, done⟩
    obtain ⟨header?, read, same⟩ := bind_eq_ok.mp done
    cases same
    exact ⟨header?, read, rfl⟩
  · rintro ⟨header?, read, rfl⟩
    exact ⟨_, bind_eq_ok.mpr ⟨header?, read, rfl⟩⟩

/-- The graph with one class more, and how many were new so far. -/
def addNext (source : ClassSource) : Graph × Nat → String → Except Error (Graph × Nat) :=
  fun (graph, count) name => do
    let (graph, new) ← addFrom source graph name
    return (graph, count + new)

/-- **All classes of a list.** The graph has their headers, one after the other. -/
theorem exists_addNext_iff {count : Nat} :
    (∃ total, names.foldlM (addNext source) (graph, count) = .ok (later, total)) ↔
    ∃ headers, names.mapM source.header? = .ok headers ∧ graph.insertAll headers.reduceOption = later := by
  induction names generalizing graph count with
  | nil =>
    constructor
    · rintro ⟨total, done⟩
      cases done
      exact ⟨[], rfl, rfl⟩
    · rintro ⟨headers, done, rfl⟩
      cases done
      exact ⟨count, rfl⟩
  | cons name names ih =>
    constructor
    · rintro ⟨total, done⟩
      rw [List.foldlM_cons] at done
      obtain ⟨⟨middle, between⟩, step, rest⟩ := bind_eq_ok.mp done
      obtain ⟨⟨next, new⟩, added, same⟩ := bind_eq_ok.mp step
      cases same
      obtain ⟨header?, here, rfl⟩ := exists_addFrom_iff.mp ⟨new, added⟩
      obtain ⟨headers, others, rfl⟩ := ih.mp ⟨total, rest⟩
      refine ⟨header? :: headers, ?_, ?_⟩
      · rw [List.mapM_cons, here, ok_bind, others]
        rfl
      · cases header? <;> rfl
    · rintro ⟨headers, done, rfl⟩
      rw [List.mapM_cons] at done
      obtain ⟨header?, here, done⟩ := bind_eq_ok.mp done
      obtain ⟨others, rest, same⟩ := bind_eq_ok.mp done
      cases same
      obtain ⟨new, added⟩ := exists_addFrom_iff.mpr ⟨header?, here, rfl⟩
      have behind : (graph.insertAll header?.toList).insertAll others.reduceOption =
          graph.insertAll (header? :: others).reduceOption := by cases header? <;> rfl
      obtain ⟨total, ran⟩ := ih.mpr ⟨others, rest, behind⟩
      refine ⟨total, ?_⟩
      rw [List.foldlM_cons]
      exact bind_eq_ok.mpr ⟨_, bind_eq_ok.mpr ⟨_, added, rfl⟩, ran⟩

theorem exists_addSource_iff : (∃ total, graph.addSource source = .ok (later, total)) ↔
    ∃ headers, source.headers = .ok headers ∧ graph.insertAll headers = later := by
  refine exists_addNext_iff.trans ?_
  simp only [ClassSource.headers, bind_eq_ok, pure_eq_ok]
  constructor
  · rintro ⟨headers, read, rfl⟩
    exact ⟨_, ⟨headers, read, rfl⟩, rfl⟩
  · rintro ⟨_, ⟨headers, read, rfl⟩, rfl⟩
    exact ⟨headers, read, rfl⟩

/-- **One source more**, which is logged. -/
theorem exists_addLogged_iff (world : World) : (∃ final, addLogged graph source world = .ok later final) ↔
    ∃ headers, source.headers = .ok headers ∧ graph.insertAll headers = later := by
  rw [← exists_addSource_iff, addLogged]
  cases graph.addSource source with
  | error error => exact ⟨nofun, nofun⟩
  | ok result =>
    constructor
    · rintro ⟨final, done⟩
      cases done
      exact ⟨result.2, rfl⟩
    · rintro ⟨total, same⟩
      cases same
      exact ⟨_, rfl⟩

/-- **Sources one after the other.** The graph has the headers of all of them. -/
theorem exists_addAll_iff {sources : List ClassSource} (world : World) :
    (∃ final, sources.foldlM addLogged graph world = .ok later final) ↔
    ∃ lists, sources.mapM ClassSource.headers = .ok lists ∧ graph.insertAll lists.flatten = later := by
  induction sources generalizing graph world with
  | nil =>
    constructor
    · rintro ⟨final, done⟩
      cases done
      exact ⟨[], rfl, rfl⟩
    · rintro ⟨lists, done, rfl⟩
      cases done
      exact ⟨world, rfl⟩
  | cons source sources ih =>
    have joined (headers : List Header) (lists : List (List Header)) :
        graph.insertAll (headers :: lists).flatten = (graph.insertAll headers).insertAll lists.flatten :=
      List.foldl_append
    simp only [List.foldlM_cons, List.mapM_cons, edit_bind_eq_ok, bind_eq_ok, pure_eq_ok]
    constructor
    · rintro ⟨final, middle, between, step, rest⟩
      obtain ⟨headers, read, rfl⟩ := (exists_addLogged_iff world).mp ⟨between, step⟩
      obtain ⟨lists, others, rfl⟩ := (ih between).mp ⟨final, rest⟩
      exact ⟨_, ⟨headers, read, lists, others, rfl⟩, joined headers lists⟩
    · rintro ⟨_, ⟨headers, read, lists, others, rfl⟩, rfl⟩
      obtain ⟨between, step⟩ := (exists_addLogged_iff world).mpr ⟨headers, read, rfl⟩
      obtain ⟨final, rest⟩ := (ih between).mpr ⟨lists, others, (joined headers lists).symm⟩
      exact ⟨final, _, between, step, rest⟩

/-- **The hierarchy of sources** is built exactly if the headers of all their classes can be read. -/
theorem exists_build_iff {sources : List ClassSource} (world : World) :
    (∃ final, build sources world = .ok graph final) ↔
    ∃ lists, sources.mapM ClassSource.headers = .ok lists ∧ ({} : Graph).insertAll lists.flatten = graph := by
  rw [← exists_addAll_iff world]
  constructor
  · rintro ⟨final, done⟩
    obtain ⟨found, between, added, logged⟩ := edit_bind_eq_ok.mp done
    cases logged
    exact ⟨between, added⟩
  · rintro ⟨between, added⟩
    exact ⟨_, edit_bind_eq_ok.mpr ⟨graph, between, added, rfl⟩⟩

/-- **The hierarchy of one source** has its headers, one after the other. -/
theorem exists_buildOne_iff (world : World) : (∃ final, build [source] world = .ok graph final) ↔
    ∃ headers, source.headers = .ok headers ∧ ({} : Graph).insertAll headers = graph := by
  simp only [exists_build_iff, List.mapM_cons, List.mapM_nil, bind_eq_ok, pure_eq_ok]
  constructor
  · rintro ⟨_, ⟨headers, read, _, rfl, rfl⟩, rfl⟩
    exact ⟨headers, read, by rw [List.flatten_singleton]⟩
  · rintro ⟨headers, read, rfl⟩
    exact ⟨_, ⟨headers, read, _, rfl, rfl⟩, by rw [List.flatten_singleton]⟩

end Graph

/-! ### Classes under their own names -/

/-- Every class of a source stands under the name in its header. -/
def ClassSource.Faithful (source : ClassSource) : Prop :=
  ∀ name ∈ source.names, ∀ header, source.header? name = .ok (some header) → header.name = name

/-- No two classes of a source have different headers of one name. -/
def ClassSource.Apart (source : ClassSource) : Prop :=
  ∀ first ∈ source.names, ∀ second ∈ source.names, ∀ header other, source.header? first = .ok (some header) →
    source.header? second = .ok (some other) → header.name = other.name → header = other

/-- Every name that a source lists has a class whose header can be read. -/
def ClassSource.Readable (source : ClassSource) : Prop :=
  ∀ name ∈ source.names, ∃ header, source.header? name = .ok (some header)

/-- The header of a name that a source lists. -/
def ClassSource.listed? (source : ClassSource) (name : String) : Option Header :=
  if name ∈ source.names then (source.header? name).toOption.join else none

namespace ClassSource

variable {source : ClassSource} {name : String} {header : Header}

theorem listed?_eq_some :
    source.listed? name = some header ↔ name ∈ source.names ∧ source.header? name = .ok (some header) := by
  unfold listed?
  by_cases listed : name ∈ source.names
  · rw [if_pos listed]
    cases source.header? name <;> simp [listed, Except.toOption]
  · simp [listed]

theorem Readable.exists_headers (readable : source.Readable) : ∃ headers, source.headers = .ok headers := by
  obtain ⟨headers, read⟩ : ∃ headers, source.names.mapM source.header? = .ok headers :=
    exists_mapM fun name member => (readable name member).imp' some fun _ done => done
  exact ⟨_, bind_eq_ok.mpr ⟨headers, read, rfl⟩⟩

/-- The headers of a source are those of the names that it lists. -/
theorem mem_headers {headers : List Header} (read : source.headers = .ok headers) :
    header ∈ headers ↔ ∃ name ∈ source.names, source.header? name = .ok (some header) := by
  obtain ⟨all, reads, same⟩ := bind_eq_ok.mp read
  cases same
  rw [List.reduceOption_mem_iff]
  constructor
  · exact mem_of_mapM reads
  · rintro ⟨name, inside, done⟩
    obtain ⟨header?, member, again⟩ := mapM_of_mem reads inside
    cases done.symm.trans again
    exact member

/-- Where headers of one name are the same, the first header of a name is any of that name. -/
theorem Apart.find?_headers (apart : source.Apart) {headers : List Header} (read : source.headers = .ok headers) :
    headers.find? (fun header => header.name == name) = some header ↔
      (∃ place ∈ source.names, source.header? place = .ok (some header)) ∧ header.name = name := by
  have unique : ∀ first ∈ headers, ∀ second ∈ headers, first.name = second.name → first = second := by
    intro first one second two
    obtain ⟨place, inside, done⟩ := (mem_headers read).mp one
    obtain ⟨other, insideToo, doneToo⟩ := (mem_headers read).mp two
    exact apart place inside other insideToo first second done doneToo
  rw [find?_key_eq_some unique, mem_headers read]

/-- Classes under their own names have different headers of one name only if they are one class. -/
theorem Faithful.apart (faithful : source.Faithful) : source.Apart := by
  intro first one second two header other read readToo same
  rw [faithful first one header read, faithful second two other readToo] at same
  rw [same, readToo] at read
  exact (Option.some.inj (Except.ok.inj read)).symm

/-- **The first header of a name** among those of a faithful source is that of the class. -/
theorem Faithful.find?_headers (faithful : source.Faithful) {headers : List Header}
    (read : source.headers = .ok headers) (name : String) :
    headers.find? (fun header => header.name == name) = source.listed? name := by
  refine Option.ext fun header => (faithful.apart.find?_headers read).trans ?_
  rw [listed?_eq_some]
  constructor
  · rintro ⟨⟨place, inside, done⟩, rfl⟩
    rw [faithful place inside header done]
    exact ⟨inside, done⟩
  · rintro ⟨inside, done⟩
    exact ⟨⟨name, inside, done⟩, faithful name inside header done⟩

end ClassSource

namespace Graph

variable {sources : List ClassSource} {graph : Graph} {world final : World} {name : String} {header : Header}

/-- **A hierarchy built from faithful sources** holds the header of each class under its name, from the first source
that has it. -/
theorem get?_buildAll (faithful : ∀ source ∈ sources, source.Faithful) (built : build sources world = .ok graph final)
    (name : String) : graph.get? name = sources.findSome? fun source => source.listed? name := by
  obtain ⟨lists, read, rfl⟩ := (exists_build_iff world).mp ⟨final, built⟩
  rw [get?_insertAll, get?_empty, Option.none_or]
  have each := mapM_eq_ok.mp read
  clear read built
  induction each with
  | nil => rfl
  | @cons source _ sources _ here _ ih =>
    obtain ⟨faithfulHere, faithfulLater⟩ := List.forall_mem_cons.mp faithful
    rw [List.flatten_cons, List.find?_append, faithfulHere.find?_headers here, ih faithfulLater, List.findSome?_cons]
    cases source.listed? name <;> rfl

theorem get?_build {source : ClassSource} (faithful : source.Faithful) (built : build [source] world = .ok graph final) :
    graph.get? name = some header ↔ name ∈ source.names ∧ source.header? name = .ok (some header) := by
  rw [get?_buildAll (List.forall_mem_singleton.mpr faithful) built, ← ClassSource.listed?_eq_some,
    List.findSome?_singleton]

/-- A hierarchy is built from sources whose classes can all be read. -/
theorem exists_buildAll (world : World) (readable : ∀ source ∈ sources, source.Readable) :
    ∃ graph final, build sources world = .ok graph final := by
  obtain ⟨lists, read⟩ : ∃ lists, sources.mapM ClassSource.headers = .ok lists :=
    exists_mapM fun source member => (readable source member).exists_headers
  obtain ⟨final, built⟩ := (exists_build_iff world).mpr ⟨lists, read, rfl⟩
  exact ⟨_, final, built⟩

theorem exists_build {source : ClassSource} (world : World) (readable : source.Readable) :
    ∃ graph final, build [source] world = .ok graph final :=
  exists_buildAll world (List.forall_mem_singleton.mpr readable)

end Graph

/-! ### The classes of a jar -/

namespace ClassSource

variable {path : String} {entries : List Jar.Entry} {order : Jar.Order} {entry : Jar.Entry} {name : String}

/-- The order of a jar makes no difference to which classes it has. -/
theorem mem_names_jar :
    name ∈ (jar path entries order).names ↔ ∃ entry ∈ entries, Jar.className? entry.name = some name := by
  simp only [names, Jar.names, List.mem_filterMap, (order.perm _).mem_iff, List.mem_eraseDups, List.mem_map]
  constructor
  · rintro ⟨_, ⟨entry, member, rfl⟩, found⟩
    exact ⟨entry, member, found⟩
  · rintro ⟨entry, member, found⟩
    exact ⟨entry.name, ⟨entry, member, rfl⟩, found⟩

/-- A class of a jar is found at its path. -/
theorem exists_find? (member : name ∈ (jar path entries order).names) :
    ∃ entry ∈ entries, entry.name = Jar.rootPath name ∧ Jar.find? entries (Jar.rootPath name) = some entry := by
  obtain ⟨entry, inside, found⟩ := mem_names_jar.mp member
  have same := (Jar.className?_eq_some.mp found).1
  cases last : Jar.find? entries (Jar.rootPath name) with
  | none =>
    have differs := List.find?_eq_none.mp last entry (List.mem_reverse.mpr inside)
    rw [same, beq_self_eq_true] at differs
    exact absurd rfl differs
  | some other =>
    refine ⟨other, List.mem_reverse.mp (List.mem_of_find?_eq_some last), ?_, rfl⟩
    simpa using List.find?_some last

/-- In a jar without repeated names each entry is found by its name. -/
theorem find?_of_nodup (distinct : (entries.map Jar.Entry.name).Nodup) (member : entry ∈ entries) :
    Jar.find? entries entry.name = some entry := by
  have unique : ∀ first ∈ entries.reverse, ∀ second ∈ entries.reverse, first.name = second.name → first = second :=
    fun first one second two => List.inj_on_of_nodup_map distinct (List.mem_reverse.mp one) (List.mem_reverse.mp two)
  exact (find?_key_eq_some unique).mpr ⟨List.mem_reverse.mpr member, rfl⟩

/-- **The header of a class of a jar** is that in the entry at its path. -/
theorem header?_jar (found : Jar.find? entries (Jar.rootPath name) = some entry) {header : Header} :
    (jar path entries order).header? name = .ok (some header) ↔
      ∃ bytes, entry.readFrom path = .ok bytes ∧ Header.parse bytes = .ok header := by
  have bytes? : (jar path entries order).classBytes? name = (do return some (← entry.readFrom path)) := by
    have here : Jar.find? entries (name ++ ".class") = some entry := found
    rw [classBytes?, here]
  cases read : entry.readFrom path with
  | error error =>
    rw [header?, bytes?, read]
    exact ⟨nofun, nofun⟩
  | ok bytes =>
    rw [read] at bytes?
    rw [header?_eq_ok bytes?]
    simp

end ClassSource

/-! ### The order of a jar -/

namespace ClassSource

variable {path : String} {entries : List Jar.Entry} {order next : Jar.Order}

theorem mem_names_reordered (order next : Jar.Order) {name : String} :
    name ∈ (jar path entries next).names ↔ name ∈ (jar path entries order).names := by
  rw [mem_names_jar, mem_names_jar]

theorem Apart.reordered (apart : (jar path entries order).Apart) : (jar path entries next).Apart :=
  fun first one second two =>
    apart first ((mem_names_reordered order next).mp one) second ((mem_names_reordered order next).mp two)

theorem exists_headers_reordered {headers : List Header} (read : (jar path entries order).headers = .ok headers) :
    ∃ others, (jar path entries next).headers = .ok others := by
  obtain ⟨all, reads, -⟩ := bind_eq_ok.mp read
  obtain ⟨found, again⟩ : ∃ found, (jar path entries next).names.mapM (jar path entries next).header? = .ok found := by
    refine exists_mapM fun name inside => ?_
    obtain ⟨header?, -, done⟩ := mapM_of_mem reads ((mem_names_reordered order next).mp inside)
    exact ⟨header?, done⟩
  exact ⟨_, bind_eq_ok.mpr ⟨found, again, rfl⟩⟩

end ClassSource

/-- **The order of a jar makes no difference** if no two of its classes have different headers of one name: in another
order the hierarchy is built, too, and knows the same classes. -/
theorem Graph.exists_build_reordered {path : String} {entries : List Jar.Entry} {order : Jar.Order} {graph : Graph}
    {world final : World} (apart : (ClassSource.jar path entries order).Apart)
    (built : build [.jar path entries order] world = .ok graph final) (next : Jar.Order) (start : World) :
    ∃ other last, build [.jar path entries next] start = .ok other last ∧
      ∀ name, other.get? name = graph.get? name := by
  obtain ⟨headers, read, rfl⟩ := (exists_buildOne_iff world).mp ⟨final, built⟩
  obtain ⟨others, again⟩ := ClassSource.exists_headers_reordered read
  obtain ⟨last, rebuilt⟩ := (exists_buildOne_iff start).mpr ⟨others, again, rfl⟩
  refine ⟨_, last, rebuilt, fun name => ?_⟩
  rw [get?_insertAll, get?_insertAll]
  refine congrArg _ (Option.ext fun header => ?_)
  rw [apart.find?_headers read, apart.reordered.find?_headers again]
  simp only [ClassSource.mem_names_reordered order next]
  rfl

end JarRename
