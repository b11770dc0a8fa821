import JarRename.Proofs.Hierarchy.Walk
import Mathlib.Data.List.Chain

/-!
**The ancestors of a class.**

The superclasses of a class come first, up to one that is not known or in front of one that came already. Then come the
interfaces of the class and of its superclasses, depth first and without a name that came already. So no cycle is gone
round, and the ancestors are exactly the names that superclasses and from there interfaces lead to. The superclass of a
class that is met as an interface is not asked for.

* `Graph.SuperclassChain`, `Graph.SuperclassChain.unique`: the superclasses of a class, of which there is one list only;
* `Graph.exists_chain`: the ancestors by the chain and the walk over interfaces;
* `Graph.ancestors_order`: their order and which names they are.
-/

namespace JarRename.Graph

variable {graph : Graph} {seen chain other : List String} {name member lower upper : String} {header : Header}

/-! ### Superclass chains -/

/-- The class has the superclass. Nothing is said of a class that is not known. -/
def HasSuperclass (graph : Graph) (name superName : String) : Prop :=
  (graph.get? name).bind Header.superName = some superName

theorem HasSuperclass.eq (first : graph.HasSuperclass name upper) (second : graph.HasSuperclass name member) :
    upper = member :=
  Option.some.inj (first.symm.trans second)

/-- The superclasses of a class, in order. The chain goes on until a class has no superclass, is not known, or has one
that came already. -/
structure SuperclassChain (graph : Graph) (name : String) (chain : List String) : Prop where
  linked : (name :: chain).IsChain graph.HasSuperclass
  distinct : (name :: chain).Nodup
  ended : ∀ last ∈ (name :: chain).getLast?, ∀ upper, graph.HasSuperclass last upper → upper ∈ name :: chain

/-- A chain meets no name that was met before, and none twice. -/
theorem nodup_superChain (graph : Graph) (seen : List String) (name : String) :
    (graph.superChain seen name).Nodup ∧ ∀ member ∈ graph.superChain seen name, member ∉ seen := by
  fun_induction graph.superChain seen name with
  | case1 => exact ⟨.nil, List.forall_mem_nil _⟩
  | case2 seen name fresh | case3 seen name fresh =>
    exact ⟨List.nodup_singleton name, List.forall_mem_singleton.mpr (mt List.contains_iff_mem.mpr fresh)⟩
  | case4 seen name fresh header known superName found ih =>
    obtain ⟨distinct, new⟩ := ih
    refine ⟨List.nodup_cons.mpr ⟨fun again => new name again List.mem_cons_self, distinct⟩, ?_⟩
    refine List.forall_mem_cons.mpr ⟨mt List.contains_iff_mem.mpr fresh, fun member inside met => ?_⟩
    exact new member inside (List.mem_cons_of_mem _ met)

/-- A chain from the superclass of a class goes from class to superclass. -/
theorem linked_superChain (below : graph.HasSuperclass lower name) :
    (lower :: graph.superChain seen name).IsChain graph.HasSuperclass := by
  fun_induction graph.superChain seen name generalizing lower with
  | case1 => exact List.isChain_singleton lower
  | case2 | case3 => exact List.isChain_pair.mpr below
  | case4 seen name fresh header known superName found ih =>
    have above : graph.HasSuperclass name superName := by rw [HasSuperclass, known, Option.bind_some, found]
    exact List.isChain_cons_cons.mpr ⟨below, ih above⟩

/-- A chain from the superclass of a class ends only where nothing new follows. -/
theorem ended_superChain (below : graph.HasSuperclass lower name) {last : String}
    (isLast : last ∈ (lower :: graph.superChain seen name).getLast?) (above : graph.HasSuperclass last upper) :
    upper ∈ graph.superChain seen name ++ seen := by
  fun_induction graph.superChain seen name generalizing lower with
  | case1 seen name met =>
    cases isLast
    rw [← below.eq above]
    exact List.contains_iff_mem.mp met
  | case2 seen name fresh unknown =>
    obtain rfl : name = last := by simpa using isLast
    rw [HasSuperclass, unknown] at above
    cases above
  | case3 seen name fresh header known top =>
    obtain rfl : name = last := by simpa using isLast
    rw [HasSuperclass, known, Option.bind_some, top] at above
    cases above
  | case4 seen name fresh header known superName found ih =>
    have next : graph.HasSuperclass name superName := by rw [HasSuperclass, known, Option.bind_some, found]
    rw [List.getLast?_cons_cons] at isLast
    have later := ih next isLast
    simp only [List.mem_append, List.mem_cons] at later ⊢
    exact or_left_comm.mp later |>.elim (fun same => .inl (.inl same)) fun rest => rest.imp_left .inr

namespace SuperclassChain

/-- The chain of a class without a superclass is empty. -/
theorem top (none : (graph.get? name).bind Header.superName = none) : graph.SuperclassChain name [] where
  linked := List.isChain_singleton name
  distinct := List.nodup_singleton name
  ended := by
    intro last isLast upper above
    obtain rfl : name = last := by simpa using isLast
    cases none.symm.trans above

/-- The superclass of a class of the chain is in the chain. -/
theorem closed (supers : graph.SuperclassChain name chain) (inside : lower ∈ name :: chain)
    (above : graph.HasSuperclass lower upper) : upper ∈ name :: chain := by
  obtain ⟨front, back, split⟩ := List.append_of_mem inside
  cases back with
  | nil => exact supers.ended lower (by simp [split]) upper above
  | cons next back =>
    have linked := supers.linked
    rw [split] at linked ⊢
    rw [above.eq (List.isChain_append_cons_cons.mp linked).2.1]
    simp

/-- **The classes of the chain** are those that superclasses lead to. -/
theorem mem_iff (supers : graph.SuperclassChain name chain) :
    member ∈ name :: chain ↔ Relation.ReflTransGen graph.HasSuperclass name member := by
  constructor
  · intro inside
    have linked := supers.linked
    clear supers
    induction chain generalizing name with
    | nil => rw [List.mem_singleton.mp inside]
    | cons upper chain ih =>
      obtain ⟨above, linked⟩ := List.isChain_cons_cons.mp linked
      obtain rfl | inside := List.mem_cons.mp inside
      · exact .refl
      · exact .head above (ih inside linked)
  · intro reached
    induction reached with
    | refl => exact List.mem_cons_self
    | tail _ above ih => exact supers.closed ih above

/-- Of two lists that go from class to superclass, one is the start of the other. -/
theorem prefix_or_prefix (first : (name :: chain).IsChain graph.HasSuperclass)
    (second : (name :: other).IsChain graph.HasSuperclass) : chain <+: other ∨ other <+: chain := by
  induction chain generalizing name other with
  | nil => exact .inl List.nil_prefix
  | cons upper chain ih =>
    cases other with
    | nil => exact .inr List.nil_prefix
    | cons next other =>
      obtain ⟨above, first⟩ := List.isChain_cons_cons.mp first
      obtain ⟨aboveToo, second⟩ := List.isChain_cons_cons.mp second
      obtain rfl := above.eq aboveToo
      simpa [List.cons_prefix_cons] using ih first second

theorem eq_of_prefix (supers : graph.SuperclassChain name chain) (longer : graph.SuperclassChain name other)
    (start : chain <+: other) : chain = other := by
  obtain ⟨rest, rfl⟩ := start
  cases rest with
  | nil => rw [List.append_nil]
  | cons upper rest =>
    -- the chain has ended, so what follows it would come twice
    obtain ⟨linked, distinct, -⟩ := longer
    rw [← List.cons_append] at linked distinct
    obtain ⟨-, -, between⟩ := List.isChain_append.mp linked
    obtain ⟨last, isLast⟩ : ∃ last, last ∈ (name :: chain).getLast? :=
      ⟨_, List.getLast?_eq_some_getLast (List.cons_ne_nil name chain)⟩
    have again := supers.ended last isLast upper (between last isLast upper rfl)
    exact absurd rfl ((List.nodup_append.mp distinct).2.2 upper again upper List.mem_cons_self)

/-- **A class has one chain of superclasses.** -/
theorem unique (first : graph.SuperclassChain name chain) (second : graph.SuperclassChain name other) :
    chain = other := by
  obtain start | start := prefix_or_prefix first.linked second.linked
  · exact first.eq_of_prefix second start
  · exact (second.eq_of_prefix first start).symm

end SuperclassChain

/-- The superclasses of a known class are its chain. -/
theorem superclassChain_superclasses (known : graph.get? name = some header) :
    graph.SuperclassChain name (graph.superclasses header) := by
  unfold superclasses
  rw [(mem_of_get? known).2]
  cases found : header.superName with
  | none => exact .top (by rw [known, Option.bind_some, found])
  | some superName =>
    have above : graph.HasSuperclass name superName := by rw [HasSuperclass, known, Option.bind_some, found]
    obtain ⟨distinct, new⟩ := nodup_superChain graph [name] superName
    refine ⟨linked_superChain above, List.nodup_cons.mpr ⟨?_, distinct⟩, fun last isLast upper next => ?_⟩
    · exact fun again => new name again List.mem_cons_self
    · have inside := ended_superChain above isLast next
      rwa [List.mem_append, List.mem_singleton, or_comm, ← List.mem_cons] at inside

/-! ### Ancestors -/

/-- The interfaces of the known classes of a list. -/
theorem flatMap_filterMap_get? (graph : Graph) (names : List String) :
    (names.filterMap graph.get?).flatMap Header.interfaces = names.flatMap graph.interfacesOf := by
  induction names with
  | nil => rfl
  | cons name names ih =>
    rw [List.flatMap_cons, ← ih, List.filterMap_cons, interfacesOf]
    cases graph.get? name <;> rfl

/-- The names behind a chain: the interfaces of the class and of each class of the chain, walked in order. -/
def interfacesBehind (graph : Graph) (name : String) (chain : List String) : List String :=
  graph.interfaceWalk (name :: chain) ((name :: chain).flatMap graph.interfacesOf)

/-- **The ancestors of a class** are the chain of its superclasses and the interfaces behind it. -/
theorem exists_chain (graph : Graph) (name : String) :
    ∃ chain, graph.SuperclassChain name chain ∧ graph.ancestors name = chain ++ graph.interfacesBehind name chain := by
  rw [ancestors_eq_lineage]
  unfold lineage interfacesBehind
  cases known : graph.get? name with
  | none =>
    refine ⟨[], .top (by rw [known, Option.bind_none]), ?_⟩
    have none : graph.interfacesOf name = [] := by rw [interfacesOf, known, Option.elim_none]
    rw [List.flatMap_singleton, none, interfaceWalk]
    rfl
  | some header =>
    refine ⟨graph.superclasses header, superclassChain_superclasses known, ?_⟩
    have own : graph.interfacesOf name = header.interfaces := by rw [interfacesOf, known, Option.elim_some]
    dsimp only
    rw [List.flatMap_cons, List.flatMap_cons, flatMap_filterMap_get?, own]

section Behind

variable (supers : graph.SuperclassChain name chain)
include supers

/-- The chain and the interfaces behind it are different names, other than that of the class. -/
theorem nodup_ancestors : (name :: (chain ++ graph.interfacesBehind name chain)).Nodup := by
  rw [← List.cons_append]
  refine List.nodup_append.mpr ⟨supers.distinct, nodup_interfaceWalk _ _ _, fun one inside two behind same => ?_⟩
  exact not_mem_of_mem_interfaceWalk behind (same ▸ inside)

/-- The class, its chain and the interfaces behind it are what superclasses and then interfaces lead to. -/
theorem mem_ancestors_iff : member ∈ name :: (chain ++ graph.interfacesBehind name chain) ↔
    ∃ middle, Relation.ReflTransGen graph.HasSuperclass name middle ∧
      Relation.ReflTransGen graph.HasInterface middle member := by
  rw [← List.cons_append, List.mem_append]
  constructor
  · rintro (inside | behind)
    · exact ⟨member, supers.mem_iff.mp inside, .refl⟩
    · obtain ⟨root, listed, reached⟩ := exists_root_of_mem behind
      obtain ⟨middle, inside, declared⟩ := List.mem_flatMap.mp listed
      exact ⟨middle, supers.mem_iff.mp inside, .head declared reached⟩
  · rintro ⟨middle, up, reached⟩
    -- interfaces of the chain are walked, and those of walked names are met or marked
    induction reached with
    | refl => exact .inl (supers.mem_iff.mpr up)
    | @tail lower upper _ declared ih =>
      obtain inside | behind := ih
      · exact (mem_interfaceWalk_of_mem (List.mem_flatMap.mpr ⟨lower, inside, declared⟩)).symm
      · exact (mem_interfaceWalk_of_interface behind declared).symm

end Behind

/-- **The order of ancestors.** In a graph that headers were inserted into one after the other, a class that is not
known has no ancestors. Otherwise they are different names other than that of the class: the chain of its superclasses,
and then the interfaces of the class and of each class of the chain in depth-first order, without names that came
already. They are exactly the other names that superclasses and from there interfaces lead to. -/
theorem ancestors_order (headers : List Header) (name : String) :
    let graph := ({} : Graph).insertAll headers
    (graph.contains name = false → graph.ancestors name = []) ∧
    name ∉ graph.ancestors name ∧ (graph.ancestors name).Nodup ∧
    (∀ order, order = graph.ancestors name ↔ ∃ chain, graph.SuperclassChain name chain ∧
      order = chain ++ graph.depthFirst (name :: chain) ((name :: chain).flatMap graph.interfacesOf)) ∧
    ∀ member, member ∈ graph.ancestors name ↔ member ≠ name ∧
      ∃ middle, Relation.ReflTransGen graph.HasSuperclass name middle ∧
        Relation.ReflTransGen graph.HasInterface middle member := by
  intro graph
  obtain ⟨chain, supers, found⟩ := exists_chain graph name
  obtain ⟨self, distinct⟩ := List.nodup_cons.mp (nodup_ancestors supers)
  rw [← found] at self distinct
  refine ⟨fun unknown => ?_, self, distinct, fun order => ?_, fun member => ?_⟩
  · have missing : graph.get? name = none := by
      refine Option.eq_none_iff_forall_ne_some.mpr fun header known => ?_
      rw [contains_iff.mpr ⟨header, known⟩] at unknown
      cases unknown
    rw [ancestors_eq_lineage, lineage, missing]
  · rw [found]
    unfold interfacesBehind
    constructor
    · rintro rfl
      exact ⟨chain, supers, by rw [interfaceWalk_eq_depthFirst]⟩
    · rintro ⟨other, otherSupers, rfl⟩
      rw [otherSupers.unique supers, interfaceWalk_eq_depthFirst]
  · rw [← mem_ancestors_iff supers, ← found, List.mem_cons]
    constructor
    · intro inside
      exact ⟨fun same => self (same ▸ inside), .inr inside⟩
    · rintro ⟨differs, inside⟩
      exact inside.resolve_left differs

end JarRename.Graph
