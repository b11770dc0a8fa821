import JarRename.Hierarchy.Graph

/-!
**The walk over the ancestors of a class.**

The superclasses of a class come first, and then the interfaces of the class and of each known superclass, depth first.
A walk yields one name at a time, each name once, and keeps what it needs to go on. A name is marked when it is yielded,
so it may wait for its turn more than once.

* `Graph.Walk`: what a walk keeps between two names;
* `Graph.Walk.nextInterface`, `Graph.Walk.next`: the next name;
* `Graph.Walk.collect`: all names that are still to come, of which there is an end;
* `Graph.ancestors`: the walk from a class.
-/

namespace JarRename.Graph

/-- What a walk keeps between two names. -/
structure Walk where
  /-- The superclass that comes next. -/
  nextSuper : Option String := none
  /-- The class itself and each known superclass so far. -/
  chain : Array Header := #[]
  /-- How many classes of the chain have had their interfaces queued. -/
  expanded : Nat := 0
  /-- The interfaces that wait. The first of them is the next one. -/
  stack : List String := []
  /-- The names that came already, and the class itself. -/
  seen : List String := []

namespace Walk

/-! ### One name more -/

/-- The next interface. Those that came already are dropped, and where none waits, those of the next class of the chain
are queued. -/
def nextInterface (graph : Graph) (walk : Walk) : Option (String × Walk) :=
  match _waiting : walk.stack with
  | name :: stack =>
    if walk.seen.contains name then nextInterface graph { walk with stack }
    else some (name, { walk with stack := graph.interfacesOf name ++ stack, seen := name :: walk.seen })
  | [] =>
    match _queued : walk.chain[walk.expanded]? with
    | none => none
    | some header =>
      nextInterface graph { walk with expanded := walk.expanded + 1, stack := header.interfaces }
termination_by (walk.chain.size - walk.expanded, walk.stack.length)
decreasing_by
  · rw [_waiting]
    exact Prod.Lex.right _ (Nat.lt_succ_self _)
  · obtain ⟨within, -⟩ := Array.getElem?_eq_some_iff.mp _queued
    exact Prod.Lex.left _ _ (Nat.sub_succ_lt_self _ _ within)

/-- The next name. A superclass that came already ends the chain of superclasses. -/
def next (graph : Graph) (walk : Walk) : Option (String × Walk) :=
  match walk.nextSuper with
  | none => walk.nextInterface graph
  | some name =>
    if walk.seen.contains name then { walk with nextSuper := none }.nextInterface graph
    else
      match graph.get? name with
      | none => some (name, { walk with nextSuper := none, seen := name :: walk.seen })
      | some header =>
        some (name,
          { walk with
            nextSuper := header.superName
            chain := walk.chain.push header
            seen := name :: walk.seen })

/-! ### All names -/

variable {graph : Graph} {walk later : Walk} {name : String}

/-- With an interface that is yielded there are fewer classes to be met, fewer of the chain to be queued or fewer
interfaces that wait. -/
theorem fewer_of_nextInterface (more : walk.nextInterface graph = some (name, later)) :
    later.nextSuper = walk.nextSuper ∧
    ((graph.unseen later.seen).length < (graph.unseen walk.seen).length ∨
      (graph.unseen later.seen).length ≤ (graph.unseen walk.seen).length ∧
        (later.chain.size - later.expanded < walk.chain.size - walk.expanded ∨
          later.chain.size - later.expanded = walk.chain.size - walk.expanded ∧
            later.stack.length < walk.stack.length)) := by
  fun_induction nextInterface graph walk with
  | case1 walk first stack waiting met ih =>
    obtain ⟨same, fewer⟩ := ih more
    dsimp only at same fewer
    rw [waiting, List.length_cons]
    exact ⟨same, by omega⟩
  | case2 walk first stack waiting fresh =>
    cases more
    refine ⟨rfl, ?_⟩
    rcases graph.fewer_unseen fresh with fewer | ⟨noMore, none⟩
    · exact .inl fewer
    · simp only [none, waiting, List.nil_append, List.length_cons]
      exact .inr ⟨noMore, .inr ⟨trivial, Nat.lt_succ_self _⟩⟩
  | case3 => cases more
  | case4 walk waiting header queued ih =>
    obtain ⟨same, fewer⟩ := ih more
    obtain ⟨within, -⟩ := Array.getElem?_eq_some_iff.mp queued
    dsimp only at same fewer
    exact ⟨same, by omega⟩

/-- With a name that is yielded there are fewer classes to be met, or no superclass comes next any more, or there is
less to be done for interfaces. -/
theorem fewer_of_next (more : walk.next graph = some (name, later)) :
    (graph.unseen later.seen).length < (graph.unseen walk.seen).length ∨
      (graph.unseen later.seen).length ≤ (graph.unseen walk.seen).length ∧
        (later.nextSuper.toList.length < walk.nextSuper.toList.length ∨
          later.nextSuper.toList.length = walk.nextSuper.toList.length ∧
            (later.chain.size - later.expanded < walk.chain.size - walk.expanded ∨
              later.chain.size - later.expanded = walk.chain.size - walk.expanded ∧
                later.stack.length < walk.stack.length)) := by
  unfold next at more
  split at more
  next top =>
    obtain ⟨same, fewer⟩ := fewer_of_nextInterface more
    rw [same]
    omega
  next superName above =>
    rw [above]
    split at more
    next met =>
      obtain ⟨same, fewer⟩ := fewer_of_nextInterface more
      dsimp only at same fewer
      rw [same]
      simp only [Option.toList_none, Option.toList_some, List.length_nil, List.length_singleton]
      omega
    next fresh =>
      split at more
      next unknown =>
        cases more
        exact .inr ⟨length_unseen_cons_le graph walk.seen name, .inl (Nat.zero_lt_one)⟩
      next header known =>
        cases more
        exact .inl (length_unseen_cons_lt fresh known)

/-- All names that are still to come. -/
def collect (graph : Graph) (walk : Walk) : List String :=
  match _more : walk.next graph with
  | none => []
  | some (name, later) => name :: later.collect graph
termination_by
  ((graph.unseen walk.seen).length, walk.nextSuper.toList.length, walk.chain.size - walk.expanded, walk.stack.length)
decreasing_by
  have fewer := fewer_of_next _more
  simp only [Prod.lex_def]
  omega

end Walk

/-- The walk from a class. One from a class that is not known yields nothing. -/
def walk (graph : Graph) (name : String) : Walk :=
  match graph.get? name with
  | none => {}
  | some header => { nextSuper := header.superName, chain := #[header], seen := [header.name] }

/-- Every ancestor of a class: its superclasses, then the interfaces of the class and of each known superclass in
order. A class that is not known has none. -/
def ancestors (graph : Graph) (name : String) : List String :=
  (graph.walk name).collect graph

end JarRename.Graph
