import JarRename.Proofs.Hierarchy.Walk
import Mathlib.Data.List.Find
import Mathlib.Data.Set.Function

/-!
**A hierarchy renamed.**

Walks compare names and look up headers, and do nothing else with names. So a walk through a renamed graph is the
renamed walk, as long as the renaming keeps the names of the graph apart. Cycles and unknown classes make no difference.

* `Graph.rename`: a graph with all its names renamed;
* `Graph.Image`, `Graph.image_rename`: a graph that answers renamed names with renamed headers, as a renamed graph does;
* `Graph.Image.ancestors`: the ancestors in such a graph.
-/

namespace JarRename

/-- The header with its names renamed. -/
def Header.rename (rename : String → String) (header : Header) : Header :=
  { header with
    name := rename header.name
    superName := header.superName.map rename
    interfaces := header.interfaces.map rename }

namespace Graph

variable {graph other : Graph} {seen : List String} {name : String}

/-! ### Images -/

/-- The graph with all its names renamed. -/
def rename (graph : Graph) (rename : String → String) : Graph :=
  ({} : Graph).insertAll (graph.nodes.toList.map (Header.rename rename))

/-- The other graph answers renamed names with renamed headers, for a renaming that keeps all names of the graph
apart. -/
structure Image (rename : String → String) (names : Set String) (graph other : Graph) : Prop where
  injective : Set.InjOn rename names
  closed : ∀ name, graph.Mentions name → name ∈ names
  get? : ∀ name ∈ names, other.get? (rename name) = (graph.get? name).map (Header.rename rename)

variable {rename : String → String} {names : Set String}

/-- **A renamed graph** answers renamed names with renamed headers. -/
theorem image_rename (injective : Set.InjOn rename names) (closed : ∀ name, graph.Mentions name → name ∈ names) :
    Image rename names graph (graph.rename rename) := by
  refine ⟨injective, closed, fun name inside => ?_⟩
  have same (header : Header) (member : header ∈ graph.nodes.toList) :
      ((header.rename rename).name == rename name) = (header.name == name) := by
    have mentioned := closed header.name ⟨header.name, header, get?_eq_some.mpr ⟨member, rfl⟩, .inl rfl⟩
    rw [Bool.eq_iff_iff, beq_iff_eq, beq_iff_eq]
    exact injective.eq_iff mentioned inside
  rw [Graph.rename, get?_insertAll, get?_empty, Option.none_or, List.find?_map, get?_eq_find?]
  exact congrArg _ (List.find?_congr same)

namespace Image

theorem contains (image : Image rename names graph other) (seenInside : ∀ known ∈ seen, known ∈ names)
    (inside : name ∈ names) : (seen.map rename).contains (rename name) = seen.contains name := by
  rw [Bool.eq_iff_iff, List.contains_iff_mem, List.contains_iff_mem, List.mem_map]
  constructor
  · rintro ⟨known, member, same⟩
    rw [← image.injective (seenInside known member) inside same]
    exact member
  · exact fun member => ⟨name, member, rfl⟩

/-- **A chain in the image** is the chain renamed. -/
theorem superChain (image : Image rename names graph other) (seenInside : ∀ known ∈ seen, known ∈ names)
    (inside : name ∈ names) :
    other.superChain (seen.map rename) (rename name) = (graph.superChain seen name).map rename := by
  fun_induction graph.superChain seen name with
  | case1 seen name met =>
    rw [superChain_eq, image.contains seenInside inside, if_pos met, List.map_nil]
  | case2 seen name fresh unknown =>
    rw [superChain_eq, image.contains seenInside inside, if_neg fresh, image.get? name inside, unknown]
    rfl
  | case3 seen name fresh header known top =>
    rw [superChain_eq, image.contains seenInside inside, if_neg fresh, image.get? name inside, known]
    simp [Header.rename, top]
  | case4 seen name fresh header known superName found ih =>
    have later := ih (List.forall_mem_cons.mpr ⟨inside, seenInside⟩)
      (image.closed superName (mentions_superName known found))
    rw [List.map_cons] at later
    rw [superChain_eq, image.contains seenInside inside, if_neg fresh, image.get? name inside, known]
    simp [Header.rename, found, later]

theorem interfacesOf (image : Image rename names graph other) (inside : name ∈ names) :
    other.interfacesOf (rename name) = (graph.interfacesOf name).map rename := by
  rw [Graph.interfacesOf, Graph.interfacesOf, image.get? name inside]
  cases graph.get? name <;> rfl

/-- **A walk in the image** is the walk renamed. -/
theorem interfaceWalk (image : Image rename names graph other) {stack : List String}
    (seenInside : ∀ known ∈ seen, known ∈ names) (inside : ∀ name ∈ stack, name ∈ names) :
    other.interfaceWalk (seen.map rename) (stack.map rename) = (graph.interfaceWalk seen stack).map rename := by
  have marked {name : String} {seen : List String} (seenInside : ∀ known ∈ seen, known ∈ names)
      (inside : name ∈ names) : rename name ∈ seen.map rename ↔ name ∈ seen := by
    rw [← List.contains_iff_mem, image.contains seenInside inside, List.contains_iff_mem]
  induction seen, stack using walk_induction graph with
  | nil => rw [List.map_nil, interfaceWalk_nil, interfaceWalk_nil, List.map_nil]
  | met seen name rest known ih =>
    obtain ⟨here, behind⟩ := List.forall_mem_cons.mp inside
    rw [List.map_cons, interfaceWalk_of_mem known, interfaceWalk_of_mem ((marked seenInside here).mpr known)]
    exact ih seenInside behind
  | fresh seen name rest new ih =>
    obtain ⟨here, behind⟩ := List.forall_mem_cons.mp inside
    have declared (interface : String) (member : interface ∈ graph.interfacesOf name) : interface ∈ names :=
      image.closed interface (mentions_interfacesOf member)
    have later := ih (List.forall_mem_cons.mpr ⟨here, seenInside⟩) (List.forall_mem_append.mpr ⟨declared, behind⟩)
    rw [List.map_cons, List.map_append] at later
    rw [List.map_cons, interfaceWalk_of_not_mem new, interfaceWalk_of_not_mem (mt (marked seenInside here).mp new),
      image.interfacesOf here, later, List.map_cons]

theorem superclasses (image : Image rename names graph other) {header : Header}
    (known : graph.get? name = some header) :
    other.superclasses (header.rename rename) = (graph.superclasses header).map rename := by
  have named : ∀ known ∈ [header.name], known ∈ names :=
    List.forall_mem_singleton.mpr (image.closed _ ⟨name, header, known, .inr (.inl rfl)⟩)
  unfold Graph.superclasses
  cases found : header.superName with
  | none => simp [Header.rename, found]
  | some superName =>
    have chain := image.superChain named (image.closed superName (mentions_superName known found))
    simpa [Header.rename, found] using chain

/-- The headers of renamed classes, as far as they are known. -/
theorem filterMap_get? (image : Image rename names graph other) {list : List String}
    (inside : ∀ name ∈ list, name ∈ names) :
    (list.map rename).filterMap other.get? = (list.filterMap graph.get?).map (Header.rename rename) := by
  rw [List.filterMap_map, List.map_filterMap]
  exact List.filterMap_congr fun name member => image.get? name (inside name member)

/-- **The ancestors of a renamed class** are the renamed ancestors, in the same order. -/
theorem ancestors (image : Image rename names graph other) (inside : name ∈ names) :
    other.ancestors (rename name) = (graph.ancestors name).map rename := by
  rw [ancestors_eq_lineage, ancestors_eq_lineage]
  unfold lineage
  rw [image.get? name inside]
  cases known : graph.get? name with
  | none => rfl
  | some header =>
    have supersInside (member : String) (listed : member ∈ graph.superclasses header) : member ∈ names :=
      image.closed member (mentions_of_mem_superclasses known listed)
    let chain := header :: (graph.superclasses header).filterMap graph.get?
    have walk := image.interfaceWalk (List.forall_mem_cons.mpr ⟨inside, supersInside⟩)
      fun member listed => image.closed member (mentions_of_mem_chain known listed)
    have interfaces : (chain.map (Header.rename rename)).flatMap Header.interfaces =
        (chain.flatMap Header.interfaces).map rename := by
      rw [List.flatMap_map, List.map_flatMap]
      rfl
    simp only [Option.map_some, image.superclasses known, image.filterMap_get? supersInside, ← List.map_cons,
      List.map_append]
    rw [interfaces, walk]

end Image

end Graph

end JarRename
