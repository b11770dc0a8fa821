import JarRename.Proofs.Resolver.Superclass

/-!
**Classes that no walk meets.**

A walk looks up a name only when it yields it. So what a graph says about all other names makes no difference to the
walk, in either of its parts and also where it ends at unknown classes: two graphs that agree on the names that the walk
through one of them yields have the same walk. A class that joins the graph can thus change the names of an owner's
members only if it is the owner or one of its ancestors.

* `Graph.Agrees`: graphs with the same headers for some names;
* `Graph.Agrees.superChain`, `Graph.Agrees.interfaceWalk`: the two parts of a walk;
* `Graph.Agrees.ancestors`: the whole walk;
* `Resolver.inherited?_of_agrees`: answers that are looked for along it;
* `Resolver.resolve_insert`: a class more that no walk meets.
-/

namespace JarRename

namespace Graph

variable {graph other : Graph} {names seen stack : List String} {name : String}

/-! ### Graphs that agree -/

/-- The other graph says the same about all of the names. -/
def Agrees (graph other : Graph) (names : List String) : Prop :=
  ∀ name ∈ names, other.get? name = graph.get? name

theorem agrees_cons : graph.Agrees other (name :: names) ↔
    other.get? name = graph.get? name ∧ graph.Agrees other names :=
  List.forall_mem_cons

theorem agrees_append {more : List String} : graph.Agrees other (names ++ more) ↔
    graph.Agrees other names ∧ graph.Agrees other more :=
  List.forall_mem_append

/-- A class more makes no difference to other names. -/
theorem agrees_insert {header : Header} (apart : header.name ∉ names) : graph.Agrees (graph.insert header) names := by
  intro name member
  have differs : header.name ≠ name := fun same => apart (same ▸ member)
  rw [get?_insert, if_neg differs, Option.or_none]

/-! ### Walks -/

/-- **A superclass chain** is the same in a graph that agrees on the chain. -/
theorem Agrees.superChain (agrees : graph.Agrees other (graph.superChain seen name)) :
    other.superChain seen name = graph.superChain seen name := by
  fun_induction graph.superChain seen name with
  | case1 seen name met => rw [superChain_eq, if_pos met]
  | case2 seen name fresh unknown =>
    obtain ⟨here, -⟩ := agrees_cons.mp agrees
    rw [superChain_eq, if_neg fresh, here, unknown, Option.bind_none]
  | case3 seen name fresh header known top =>
    obtain ⟨here, -⟩ := agrees_cons.mp agrees
    rw [superChain_eq, if_neg fresh, here, known, Option.bind_some, top]
  | case4 seen name fresh header known superName found ih =>
    obtain ⟨here, above⟩ := agrees_cons.mp agrees
    rw [superChain_eq, if_neg fresh, here, known, Option.bind_some, found]
    exact congrArg (name :: ·) (ih above)

/-- **A walk over interfaces** is the same in a graph that agrees on the walk. Names that are marked already are not
looked up. -/
theorem Agrees.interfaceWalk (agrees : graph.Agrees other (graph.interfaceWalk seen stack)) :
    other.interfaceWalk seen stack = graph.interfaceWalk seen stack := by
  induction seen, stack using walk_induction graph with
  | nil => rw [interfaceWalk_nil, interfaceWalk_nil]
  | met seen name rest known ih =>
    rw [interfaceWalk_of_mem known] at agrees ⊢
    rw [interfaceWalk_of_mem known, ih agrees]
  | fresh seen name rest new ih =>
    rw [interfaceWalk_of_not_mem new] at agrees ⊢
    obtain ⟨here, later⟩ := agrees_cons.mp agrees
    have declared : other.interfacesOf name = graph.interfacesOf name := congrArg (Option.elim · [] _) here
    rw [interfaceWalk_of_not_mem new, declared, ih later]

theorem Agrees.superclasses {header : Header} (agrees : graph.Agrees other (graph.superclasses header)) :
    other.superclasses header = graph.superclasses header := by
  unfold Graph.superclasses at agrees ⊢
  cases found : header.superName with
  | none => rfl
  | some superName =>
    rw [found] at agrees
    exact agrees.superChain

/-- The headers of names are the same in a graph that agrees on them. -/
theorem Agrees.filterMap (agrees : graph.Agrees other names) :
    names.filterMap other.get? = names.filterMap graph.get? :=
  List.filterMap_congr agrees

/-- **The ancestors of a class** are the same in a graph that agrees on the class and its ancestors. -/
theorem Agrees.ancestors (agrees : graph.Agrees other (name :: graph.ancestors name)) :
    other.ancestors name = graph.ancestors name := by
  obtain ⟨here, met⟩ := agrees_cons.mp agrees
  rw [Graph.ancestors_eq_lineage] at met
  rw [Graph.ancestors_eq_lineage, Graph.ancestors_eq_lineage]
  unfold Graph.lineage at met ⊢
  rw [here]
  cases known : graph.get? name with
  | none => rfl
  | some header =>
    rw [known] at met
    obtain ⟨chain, behind⟩ := agrees_append.mp met
    simp only [chain.superclasses, chain.filterMap, behind.interfaceWalk]

end Graph

namespace Resolver

variable {graph other : Graph} {owner : String}

/-- An answer for an owner or one of its ancestors is the same in a graph that agrees on them. -/
theorem inherited?_of_agrees (table : Table) (agrees : graph.Agrees other (owner :: graph.ancestors owner))
    (answer : String → Option String) :
    (Resolver.mk table other).inherited? owner answer = (Resolver.mk table graph).inherited? owner answer := by
  unfold inherited?
  rw [agrees.ancestors]

/-- **A class that no walk meets changes no name.** If a class joins the graph that is neither the owner nor one of its
ancestors, then the ancestors of the owner stay as they are, and all its fields and methods keep their new names, those
that are declared in it with any flags as well as those that are referred to. What the superclass and the interfaces of
the class are makes no difference. (A class whose name is known already does not join the graph.) -/
theorem resolve_insert (graph : Graph) (table : Table) (owner : String) (header : Header)
    (differs : header.name ≠ owner) (unmet : header.name ∉ graph.ancestors owner) :
    let before := Resolver.mk table graph
    let after := Resolver.mk table (graph.insert header)
    (graph.insert header).ancestors owner = graph.ancestors owner ∧
    (∀ name, after.field? owner name = before.field? owner name) ∧
    (∀ name descriptor, after.method? owner name descriptor = before.method? owner name descriptor) ∧
    (∀ name descriptor declared,
      after.mapField owner name descriptor declared = before.mapField owner name descriptor declared) ∧
    ∀ name descriptor declared,
      after.mapMethod owner name descriptor declared = before.mapMethod owner name descriptor declared := by
  intro before after
  have agrees : graph.Agrees (graph.insert header) (owner :: graph.ancestors owner) :=
    Graph.agrees_insert (List.not_mem_cons_of_ne_of_not_mem differs unmet)
  have field (name : String) : after.field? owner name = before.field? owner name :=
    inherited?_of_agrees table agrees _
  have method (name descriptor : String) : after.method? owner name descriptor = before.method? owner name descriptor :=
    inherited?_of_agrees table agrees _
  refine ⟨agrees.ancestors, field, method, fun name descriptor declared => ?_, fun name descriptor declared => ?_⟩
  · rw [mapField, mapField, field]
  · rw [mapMethod, mapMethod, method]

/-! ### A class beside classes in a circle -/

/-- A class that extends a class of the circle and names an ancestor of it that is not known. -/
def beside : Header where
  name := "k"
  superName := some "c"
  interfaces := ["x", "k"]
  flags := 1

/-- The class `k` joins the graph of these classes, and leaves the members of `c` with the names that interfaces give
to them. -/
theorem resolve_insert_beside : ∃ table, Table.ofEntries Table.exchange .forward = .ok table ∧
    (looped.insert beside).get? "k" = some beside ∧
    (looped.insert beside).ancestors "c" = ["b", "d", "j", "l", "a", "x", "i"] ∧
    (Resolver.mk table (looped.insert beside)).mapMethod "c" "m" "(La;)V" (some 0x0001) = some "n" ∧
    (Resolver.mk table (looped.insert beside)).mapField "c" "f" "I" none = some "g" := by
  obtain ⟨table, done⟩ := Table.exists_exchange
  have order : looped.ancestors "c" = ["b", "d", "j", "l", "a", "x", "i"] := (List.cons.inj order_looped).2
  have unmet : beside.name ∉ looped.ancestors "c" := by
    rw [order]
    decide
  obtain ⟨ancestors, -, -, fields, methods⟩ := resolve_insert looped table "c" beside (by decide) unmet
  have holds := Table.holds_ofForward done
  refine ⟨table, Table.ofEntries_forward.trans done, ?_, ancestors.trans order, ?_, ?_⟩
  · rw [Graph.get?_insert, get?_looped]
    rfl
  · have first : table.method? "a" "m" "(La;)V" = some "n" :=
      (holds (.ofMethod "a" "m" "(La;)V" "n")).mpr ⟨1, by simp [Table.exchange]⟩
    have none (owner : String) (other : owner ≠ "a") : table.method? owner "m" "(La;)V" = none :=
      Table.get?_ofForward_eq_none done (.ofMethod owner "m" "(La;)V")
        (by simp [Table.exchange, Mapping.Entry.key, other.symm])
    rw [methods, mapMethod, if_neg (by decide), if_neg (by decide), method?, inherited?_eq, order_looped]
    simp [none, first]
  · have first : table.field? "x" "f" = some "g" :=
      (holds (.ofField "x" "f" "g")).mpr ⟨2, by simp [Table.exchange]⟩
    have none (owner : String) (other : owner ≠ "x") : table.field? owner "f" = none :=
      Table.get?_ofForward_eq_none done (.ofField owner "f") (by simp [Table.exchange, Mapping.Entry.key, other.symm])
    rw [fields, mapField, if_neg (by decide), field?, inherited?_eq, order_looped]
    simp [none, first]

end Resolver

end JarRename
