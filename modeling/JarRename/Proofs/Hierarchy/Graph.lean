import JarRename.Hierarchy.Graph
import Mathlib.Data.List.Basic
import Mathlib.Data.List.Nodup

/-!
**What a hierarchy knows.**

A graph keeps its classes in one place and an index of them in another. The index never leads astray: it leads to a
class exactly if the class stands in the graph, so looking a class up comes to the same as searching for it. No two
classes have one name, and a graph with a class more answers as before for all other names.

* `Graph.get?_eq_some`, `Graph.get?_eq_find?`: the index against the classes themselves;
* `Graph.nodup_names`, `Graph.mem_names`, `Graph.size_eq_length`: the names of the classes;
* `Graph.get?_insert`, `Graph.insertAll`, `Graph.get?_insertAll`: one class more, and several;
* `Graph.Mentions`: the names that stand in a graph.
-/

namespace JarRename

/-- Where items with one key are the same, the first item with a key is the item with that key. -/
theorem find?_key_eq_some {α : Type} {key : α → String} {items : List α}
    (unique : ∀ first ∈ items, ∀ second ∈ items, key first = key second → first = second) {name : String} {item : α} :
    items.find? (fun item => key item == name) = some item ↔ item ∈ items ∧ key item = name := by
  constructor
  · intro found
    exact ⟨List.mem_of_find?_eq_some found, by simpa using List.find?_some found⟩
  · rintro ⟨member, rfl⟩
    cases found : items.find? fun other => key other == key item with
    | none => exact absurd (beq_self_eq_true (key item)) (List.find?_eq_none.mp found item member)
    | some other =>
      have same : key other = key item := by simpa using List.find?_some found
      rw [unique other (List.mem_of_find?_eq_some found) item member same]

namespace Graph

variable {graph : Graph} {name : String} {header : Header} {place : Nat}

/-! ### The index and the classes -/

/-- **The index leads to a class** of the name, and never astray. -/
theorem exists_of_index (found : graph.index[name]? = some place) :
    ∃ header, graph.nodes[place]? = some header ∧ header.name = name :=
  Option.map_eq_some_iff.mp ((graph.indexed name place).mp found)

theorem get?_of_getElem? (there : graph.nodes[place]? = some header) : graph.get? header.name = some header := by
  have found : graph.index[header.name]? = some place := by rw [graph.indexed, there, Option.map_some]
  rw [get?, found, Option.bind_some, there]

/-- **A class is found by its name** exactly if it stands in the graph. -/
theorem get?_eq_some : graph.get? name = some header ↔ header ∈ graph.nodes.toList ∧ header.name = name := by
  constructor
  · exact mem_of_get?
  · rintro ⟨member, rfl⟩
    obtain ⟨place, there⟩ := List.mem_iff_getElem?.mp member
    rw [Array.getElem?_toList] at there
    exact get?_of_getElem? there

/-- **Looking a class up** comes to the same as searching for it. -/
theorem get?_eq_find? (graph : Graph) (name : String) :
    graph.get? name = graph.nodes.toList.find? fun header => header.name == name := by
  have unique : ∀ first ∈ graph.nodes.toList, ∀ second ∈ graph.nodes.toList, first.name = second.name →
      first = second := by
    intro first one second two same
    have found := get?_eq_some.mpr ⟨one, same⟩
    rw [get?_eq_some.mpr ⟨two, rfl⟩] at found
    exact (Option.some.inj found).symm
  exact Option.ext fun header => get?_eq_some.trans (find?_key_eq_some unique).symm

theorem contains_iff : graph.contains name = true ↔ ∃ header, graph.get? name = some header := by
  rw [contains, Std.HashMap.contains_eq_isSome_getElem?, Option.isSome_iff_exists]
  constructor
  · rintro ⟨place, found⟩
    obtain ⟨header, there, rfl⟩ := exists_of_index found
    exact ⟨header, get?_of_getElem? there⟩
  · rintro ⟨header, known⟩
    obtain ⟨place, found, -⟩ := Option.bind_eq_some_iff.mp known
    exact ⟨place, found⟩

/-! ### The names of the classes -/

theorem getElem?_names (graph : Graph) (place : Nat) :
    graph.names[place]? = some name ↔ graph.index[name]? = some place := by
  rw [graph.indexed, names, List.getElem?_map, Array.getElem?_toList]

/-- No two classes have one name. -/
theorem nodup_names (graph : Graph) : graph.names.Nodup := by
  refine List.nodup_iff_getElem?_ne_getElem?.mpr fun first second before within same => ?_
  have here := List.getElem?_eq_getElem within
  have found := (getElem?_names graph first).mp (same.trans here)
  rw [(getElem?_names graph second).mp here] at found
  exact Nat.ne_of_lt before (Option.some.inj found).symm

theorem mem_names (graph : Graph) (name : String) : name ∈ graph.names ↔ ∃ header, graph.get? name = some header := by
  simp only [names, List.mem_map, get?_eq_some]

theorem length_names (graph : Graph) : graph.names.length = graph.size := by
  rw [names, List.length_map, Array.length_toList, size]

/-- A graph has as many classes as there are different names that it knows. -/
theorem size_eq_length {names : List String} (distinct : names.Nodup)
    (known : ∀ name, name ∈ names ↔ ∃ header, graph.get? name = some header) : graph.size = names.length := by
  have same : graph.names.Perm names :=
    (List.perm_ext_iff_of_nodup graph.nodup_names distinct).mpr fun name => by rw [mem_names, known]
  rw [← length_names, same.length_eq]

/-! ### Growing -/

theorem get?_empty (name : String) : ({} : Graph).get? name = none := by
  simp [get?]

/-- A graph with one class more knows the class, unless it knew one of the same name. -/
theorem get?_insert (graph : Graph) (header : Header) (name : String) :
    (graph.insert header).get? name = (graph.get? name).or (if header.name = name then some header else none) := by
  unfold insert
  by_cases known : graph.contains header.name = true
  · rw [dif_pos known]
    by_cases same : header.name = name
    · obtain ⟨first, found⟩ := contains_iff.mp known
      rw [same] at found
      rw [found, Option.some_or]
    · rw [if_neg same, Option.or_none]
  · rw [dif_neg known, get?_eq_find?, get?_eq_find?, Array.toList_push, List.find?_append, List.find?_singleton]
    simp only [beq_iff_eq]

/-- The graph with headers more, one after the other. -/
def insertAll (graph : Graph) (headers : List Header) : Graph :=
  headers.foldl insert graph

/-- A graph with headers more knows the first of them for each name that it did not know. -/
theorem get?_insertAll (graph : Graph) (headers : List Header) (name : String) :
    (graph.insertAll headers).get? name = (graph.get? name).or (headers.find? fun header => header.name == name) := by
  induction headers generalizing graph with
  | nil => simp [insertAll]
  | cons header headers ih =>
    have step : graph.insertAll (header :: headers) = (graph.insert header).insertAll headers := rfl
    rw [step, ih, get?_insert, Option.or_assoc, List.find?_cons]
    by_cases same : header.name = name
    · simp [same]
    · simp [same, beq_false_of_ne same]

/-! ### The names in a graph -/

/-- The name is that of a known class, or stands in the header of one. -/
def Mentions (graph : Graph) (name : String) : Prop :=
  ∃ known header, graph.get? known = some header ∧
    (name = known ∨ name = header.name ∨ header.superName = some name ∨ name ∈ header.interfaces)

theorem mentions_superName {header : Header} {superName : String} (known : graph.get? name = some header)
    (found : header.superName = some superName) : graph.Mentions superName :=
  ⟨name, header, known, .inr (.inr (.inl found))⟩

theorem mentions_interfacesOf {interface : String} (declared : interface ∈ graph.interfacesOf name) :
    graph.Mentions interface := by
  unfold interfacesOf at declared
  cases known : graph.get? name with
  | none =>
    rw [known] at declared
    cases declared
  | some header =>
    rw [known] at declared
    exact ⟨name, header, known, .inr (.inr (.inr declared))⟩

theorem mentions_interface {header : Header} {interface : String} (known : graph.get? name = some header)
    (listed : interface ∈ header.interfaces) : graph.Mentions interface :=
  ⟨name, header, known, .inr (.inr (.inr listed))⟩

end Graph

end JarRename
