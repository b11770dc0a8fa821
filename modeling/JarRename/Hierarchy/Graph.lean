import JarRename.ClassFile.Basic
import Std.Data.HashMap

/-!
**The class hierarchy.**

A graph holds the headers of the classes that are known, in the order in which they came, and an index of their places
by name. The first header of a name stays, and the classes that headers name as superclass or interface need not be
known.

* `Graph`: headers with an index that always leads to their places;
* `Graph.insert`, `Graph.get?`: growing and looking up;
* `Graph.unseen`: the known classes that are still to be met.
-/

namespace JarRename

/-- Without classes there is nothing that a name leads to. -/
theorem Graph.indexed_empty (name : String) (place : Nat) :
    ({} : Std.HashMap String Nat)[name]? = some place ↔ (#[] : Array Header)[place]?.map Header.name = some name := by
  simp

/-- The known classes, and where they are by name. -/
structure Graph where
  nodes : Array Header := #[]
  index : Std.HashMap String Nat := {}
  /-- A name leads to a place exactly if the class there has the name. -/
  indexed : ∀ name place, index[name]? = some place ↔ nodes[place]?.map Header.name = some name := by
    exact JarRename.Graph.indexed_empty

namespace Graph

/-! ### Growing and looking up -/

/-- Whether a class is known. -/
def contains (graph : Graph) (name : String) : Bool :=
  graph.index.contains name

/-- The header of a class. -/
def get? (graph : Graph) (name : String) : Option Header :=
  graph.index[name]?.bind fun place => graph.nodes[place]?

/-- The number of known classes. -/
def size (graph : Graph) : Nat :=
  graph.nodes.size

/-- Whether no class is known. -/
def isEmpty (graph : Graph) : Bool :=
  graph.nodes.isEmpty

/-- A name that is new leads to the place behind all classes, and the other names to where they led. -/
theorem indexed_push (graph : Graph) (header : Header) (fresh : ¬graph.contains header.name = true) (name : String)
    (place : Nat) : (graph.index.insert header.name graph.nodes.size)[name]? = some place ↔
      (graph.nodes.push header)[place]?.map Header.name = some name := by
  have missing (place : Nat) : ¬graph.nodes[place]?.map Header.name = some header.name := by
    rw [← graph.indexed]
    exact fun found => fresh (Std.HashMap.contains_eq_isSome_getElem?.trans (Option.isSome_of_mem found))
  rw [Std.HashMap.getElem?_insert, Array.getElem?_push]
  by_cases same : header.name = name
  · subst same
    rw [if_pos (beq_self_eq_true header.name), Option.some.injEq]
    by_cases last : place = graph.nodes.size
    · simp [last]
    · rw [if_neg last]
      exact iff_of_false (Ne.symm last) (missing place)
  · rw [if_neg (by simpa using same), graph.indexed]
    by_cases last : place = graph.nodes.size
    · simp [last, same]
    · rw [if_neg last]

/-- The graph with a class, which stays as it is if the class is known. -/
def insert (graph : Graph) (header : Header) : Graph :=
  if known : graph.contains header.name = true then graph
  else
    { nodes := graph.nodes.push header
      index := graph.index.insert header.name graph.nodes.size
      indexed := graph.indexed_push header known }

/-- The interfaces that a class declares. A class that is not known declares none. -/
def interfacesOf (graph : Graph) (name : String) : List String :=
  (graph.get? name).elim [] Header.interfaces

/-! ### The classes that are still to be met -/

/-- The names of the known classes. -/
def names (graph : Graph) : List String :=
  graph.nodes.toList.map Header.name

/-- The known classes outside a list of names. -/
def unseen (graph : Graph) (seen : List String) : List String :=
  graph.names.filter fun name => !seen.contains name

/-- Seeing one name more leaves out that name alone. -/
theorem unseen_cons (graph : Graph) (seen : List String) (name : String) :
    graph.unseen (name :: seen) = (graph.unseen seen).filter fun other => !(other == name) := by
  simp only [unseen, List.filter_filter, List.contains_cons, Bool.not_or]

/-- Seeing one name more leaves no more classes unseen. -/
theorem length_unseen_cons_le (graph : Graph) (seen : List String) (name : String) :
    (graph.unseen (name :: seen)).length ≤ (graph.unseen seen).length := by
  rw [unseen_cons]
  exact List.length_filter_le _ _

/-- A class that is found stands in the graph and has the name that it is found by. -/
theorem mem_of_get? {graph : Graph} {name : String} {header : Header} (known : graph.get? name = some header) :
    header ∈ graph.nodes.toList ∧ header.name = name := by
  obtain ⟨place, found, there⟩ := Option.bind_eq_some_iff.mp known
  rw [graph.indexed, there, Option.map_some, Option.some.injEq] at found
  exact ⟨Array.mem_toList_iff.mpr (Array.mem_of_getElem? there), found⟩

/-- Seeing a known class for the first time leaves fewer classes unseen. -/
theorem length_unseen_cons_lt {graph : Graph} {seen : List String} {name : String} {header : Header}
    (fresh : ¬seen.contains name = true) (known : graph.get? name = some header) :
    (graph.unseen (name :: seen)).length < (graph.unseen seen).length := by
  obtain ⟨member, named⟩ := mem_of_get? known
  have waiting : name ∈ graph.unseen seen :=
    List.mem_filter.mpr ⟨List.mem_map.mpr ⟨header, member, named⟩, by simpa using fresh⟩
  rw [unseen_cons]
  exact List.length_filter_lt_length_iff_exists.mpr ⟨name, waiting, by simp⟩

/-- Seeing a name for the first time leaves fewer classes unseen, or the name has no interfaces. -/
theorem fewer_unseen (graph : Graph) {seen : List String} {name : String} (fresh : ¬seen.contains name = true) :
    (graph.unseen (name :: seen)).length < (graph.unseen seen).length ∨
      (graph.unseen (name :: seen)).length ≤ (graph.unseen seen).length ∧ graph.interfacesOf name = [] := by
  cases known : graph.get? name with
  | some header => exact .inl (length_unseen_cons_lt fresh known)
  | none => exact .inr ⟨length_unseen_cons_le graph seen name, by rw [interfacesOf, known, Option.elim_none]⟩

end Graph

end JarRename
