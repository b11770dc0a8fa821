import JarRename.Hierarchy.Walk
import JarRename.Proofs.Hierarchy.Interfaces

/-!
**What a walk collects.**

A walk keeps its place in the chain of superclasses and in the stack of interfaces, and goes over from the one to the
other when there is no superclass any more. What it yields in the end is the whole chain, followed by the interfaces of
all its classes walked as one list.

* `Graph.superChain`, `Graph.superclasses`, `Graph.lineage`: the chain, and the ancestors as two lists;
* `Graph.Walk.interfaceWalk_queue`, `Graph.Walk.collect_interfaces`: one interface more, and all of them;
* `Graph.Walk.collect_superChain`: all superclasses, and the interfaces behind them;
* `Graph.ancestors_eq_lineage`: the walk from a class;
* `Graph.mentions_of_mem_ancestors`: ancestors are names in the graph.
-/

namespace JarRename.Graph

/-! ### The ancestors as two lists -/

/-- The superclass chain from a class on that is first met after some names. It ends before a name met
already, and with a class that is not known or has no superclass. -/
def superChain (graph : Graph) (seen : List String) (name : String) : List String :=
  if _fresh : seen.contains name = true then []
  else
    match _known : graph.get? name with
    | none => [name]
    | some header =>
      match header.superName with
      | none => [name]
      | some superName => name :: graph.superChain (name :: seen) superName
termination_by (graph.unseen seen).length
decreasing_by exact length_unseen_cons_lt _fresh _known

/-- The superclass chain of a known class. -/
def superclasses (graph : Graph) (header : Header) : List String :=
  match header.superName with
  | none => []
  | some superName => graph.superChain [header.name] superName

/-- The superclasses of a class, and then the interfaces of the class and of each known superclass in order. -/
def lineage (graph : Graph) (name : String) : List String :=
  match graph.get? name with
  | none => []
  | some header =>
    let supers := graph.superclasses header
    let chain := header :: supers.filterMap graph.get?
    supers ++ graph.interfaceWalk (name :: supers) (chain.flatMap Header.interfaces)

/-- A chain goes on with the superclass of a known class that is met for the first time. -/
theorem superChain_eq (graph : Graph) (seen : List String) (name : String) :
    graph.superChain seen name =
      if seen.contains name then []
      else match (graph.get? name).bind Header.superName with
        | none => [name]
        | some superName => name :: graph.superChain (name :: seen) superName := by
  rw [superChain]
  split_ifs with met
  · rfl
  · split
    next unknown => rw [unknown, Option.bind_none]
    next header known =>
      cases found : header.superName with
      | none => rw [known, Option.bind_some, found]
      | some superName => rw [known, Option.bind_some, found]

namespace Walk

variable {graph : Graph} {walk : Walk} {name : String} {header : Header}

/-! ### The walk step by step -/

theorem next_of_top (top : walk.nextSuper = none) : walk.next graph = walk.nextInterface graph := by
  unfold next
  rw [top]

/-- A superclass that came already makes no difference. -/
theorem next_of_met (above : walk.nextSuper = some name) (met : walk.seen.contains name = true) :
    walk.next graph = { walk with nextSuper := none }.next graph := by
  unfold next
  rw [above]
  exact if_pos met

theorem next_of_unknown (above : walk.nextSuper = some name) (fresh : ¬walk.seen.contains name = true)
    (unknown : graph.get? name = none) :
    walk.next graph = some (name, { walk with nextSuper := none, seen := name :: walk.seen }) := by
  unfold next
  rw [above]
  dsimp only
  rw [if_neg fresh, unknown]

theorem next_of_known (above : walk.nextSuper = some name) (fresh : ¬walk.seen.contains name = true)
    (known : graph.get? name = some header) :
    walk.next graph = some (name,
      { walk with nextSuper := header.superName, chain := walk.chain.push header, seen := name :: walk.seen }) := by
  unfold next
  rw [above]
  dsimp only
  rw [if_neg fresh, known]

/-! ### All names that a walk yields -/

/-- The interfaces that a walk has still to go through: those that wait, and those of the rest of the chain. -/
def queue (walk : Walk) : List String :=
  walk.stack ++ (walk.chain.toList.drop walk.expanded).flatMap Header.interfaces

/-- **One interface more.** A walk over all interfaces that are left goes on as the walk that keeps its place. -/
theorem interfaceWalk_queue (graph : Graph) (walk : Walk) :
    graph.interfaceWalk walk.seen walk.queue =
      (walk.nextInterface graph).elim [] fun more => more.1 :: graph.interfaceWalk more.2.seen more.2.queue := by
  fun_induction nextInterface graph walk with
  | case1 walk name stack waiting met ih =>
    rw [queue, waiting, List.cons_append, interfaceWalk_of_mem (List.contains_iff_mem.mp met)]
    exact ih
  | case2 walk name stack waiting fresh =>
    rw [queue, waiting, List.cons_append, interfaceWalk_of_not_mem (mt List.contains_iff_mem.mpr fresh),
      ← List.append_assoc]
    rfl
  | case3 walk waiting queued =>
    rw [Array.getElem?_eq_none_iff] at queued
    rw [queue, waiting, List.drop_eq_nil_of_le queued, List.flatMap_nil, List.append_nil, interfaceWalk_nil]
    rfl
  | case4 walk waiting header queued ih =>
    have next : walk.chain.toList.drop walk.expanded = header :: walk.chain.toList.drop (walk.expanded + 1) := by
      rw [List.drop_eq_getElem?_toList_append, Array.getElem?_toList, queued]
      rfl
    rw [queue, waiting, next, List.nil_append, List.flatMap_cons]
    exact ih

theorem collect_eq (graph : Graph) (walk : Walk) :
    walk.collect graph = (walk.next graph).elim [] fun more => more.1 :: more.2.collect graph := by
  rw [collect]
  split
  next none => rw [none, Option.elim_none]
  next more => rw [more, Option.elim_some]

/-- **Without a superclass that comes next** a walk yields the interfaces that are left. -/
theorem collect_interfaces (top : walk.nextSuper = none) :
    walk.collect graph = graph.interfaceWalk walk.seen walk.queue := by
  fun_induction collect graph walk with
  | case1 walk none =>
    rw [next_of_top top] at none
    rw [interfaceWalk_queue, none, Option.elim_none]
  | case2 walk name later more ih =>
    rw [next_of_top top] at more
    obtain ⟨same, -⟩ := fewer_of_nextInterface more
    rw [interfaceWalk_queue, more, Option.elim_some, ih (same.trans top)]

/-- **From a superclass on** a walk yields the chain of superclasses, and then the interfaces of the chain so far and of
all known superclasses. -/
theorem collect_superChain (graph : Graph) (chain : Array Header) (seen : List String) (name : String) :
    ({ nextSuper := some name, chain, seen } : Walk).collect graph =
      graph.superChain seen name ++ graph.interfaceWalk ((graph.superChain seen name).reverse ++ seen)
        ((chain.toList ++ (graph.superChain seen name).filterMap graph.get?).flatMap Header.interfaces) := by
  fun_induction graph.superChain seen name generalizing chain with
  | case1 seen name met =>
    rw [collect_eq, next_of_met rfl met, ← collect_eq, collect_interfaces rfl]
    simp [queue]
  | case2 seen name fresh unknown =>
    rw [collect_eq, next_of_unknown rfl fresh unknown, Option.elim_some, collect_interfaces rfl]
    simp [queue, unknown]
  | case3 seen name fresh header known top =>
    rw [collect_eq, next_of_known rfl fresh known, Option.elim_some, collect_interfaces top]
    simp [queue, known]
  | case4 seen name fresh header known superName found ih =>
    rw [collect_eq, next_of_known rfl fresh known, Option.elim_some, found, ih]
    simp [known]

end Walk

variable {graph : Graph} {seen : List String} {name member : String} {header : Header}

/-- **The ancestors of a class** are its superclasses and then its interfaces, all walked as one list. -/
theorem ancestors_eq_lineage (graph : Graph) (name : String) : graph.ancestors name = graph.lineage name := by
  unfold ancestors walk
  cases known : graph.get? name with
  | none =>
    rw [lineage, known]
    dsimp only
    rw [Walk.collect_interfaces rfl]
    exact interfaceWalk_nil graph []
  | some header =>
    obtain ⟨-, rfl⟩ := mem_of_get? known
    rw [lineage, known]
    dsimp only
    cases above : header.superName with
    | none =>
      have none : graph.superclasses header = [] := by rw [superclasses, above]
      rw [none, Walk.collect_interfaces rfl]
      rfl
    | some superName =>
      have supers : graph.superclasses header = graph.superChain [header.name] superName := by rw [superclasses, above]
      rw [supers, Walk.collect_superChain]
      refine congrArg _ (interfaceWalk_congr (fun other => ?_) _)
      simp [or_comm]

/-! ### The names that a walk yields -/

/-- A chain holds the class that it starts with and names in the graph. -/
theorem mentions_of_mem_superChain (inside : member ∈ graph.superChain seen name) :
    member = name ∨ graph.Mentions member := by
  fun_induction graph.superChain seen name with
  | case1 => cases inside
  | case2 => exact .inl (List.mem_singleton.mp inside)
  | case3 => exact .inl (List.mem_singleton.mp inside)
  | case4 seen name fresh header known superName found ih =>
    obtain same | inside := List.mem_cons.mp inside
    · exact .inl same
    · obtain rfl | mentioned := ih inside
      · exact .inr (mentions_superName known found)
      · exact .inr mentioned

theorem mentions_of_mem_superclasses (known : graph.get? name = some header)
    (inside : member ∈ graph.superclasses header) : graph.Mentions member := by
  unfold superclasses at inside
  split at inside
  next => cases inside
  next superName found =>
    obtain rfl | mentioned := mentions_of_mem_superChain inside
    · exact mentions_superName known found
    · exact mentioned

/-- The interfaces of a known class and of its known superclasses are names in the graph. -/
theorem mentions_of_mem_chain (known : graph.get? name = some header)
    (listed : member ∈ (header :: (graph.superclasses header).filterMap graph.get?).flatMap Header.interfaces) :
    graph.Mentions member := by
  obtain ⟨owner, inChain, inOwner⟩ := List.mem_flatMap.mp listed
  obtain rfl | inChain := List.mem_cons.mp inChain
  · exact mentions_interface known inOwner
  · obtain ⟨_, -, found⟩ := List.mem_filterMap.mp inChain
    exact mentions_interface found inOwner

/-- **Every ancestor is a name in the graph.** -/
theorem mentions_of_mem_ancestors (inside : member ∈ graph.ancestors name) : graph.Mentions member := by
  rw [ancestors_eq_lineage] at inside
  unfold lineage at inside
  split at inside
  next => cases inside
  next header known =>
    obtain listed | inside := List.mem_append.mp inside
    · exact mentions_of_mem_superclasses known listed
    obtain listed | mentioned := mentions_of_mem_interfaceWalk inside
    · exact mentions_of_mem_chain known listed
    · exact mentioned

end JarRename.Graph
