import JarRename.Proofs.Hierarchy.Ancestors
import JarRename.Proofs.Resolver.RoundTrip

/-!
**A class that adds nothing to its superclass.**

The ancestors of a class are not its own part followed by the ancestors of its superclass: its interfaces are walked
before those of the superclass, and mark names. But if a class and everything that its interfaces lead to have no entry
for a member, they can be left out. What remains are the same classes in the same order, as for the superclass, and also
if superclasses or interfaces go round in a circle.

* `Graph.SuperclassChain.above`: the chain of the superclass;
* `Graph.outside`, `Graph.filter_ancestors`: the ancestors without names that are closed under interfaces;
* `Resolver.filter_order`: a class and its superclass, without what the interfaces of the class lead to;
* `Resolver.resolve_superclass`: the member that both have.
-/

namespace JarRename

namespace Graph

variable {graph : Graph} {chain marked : List String} {name upper : String}

/-! ### The chain of the superclass -/

/-- A class with another class as its superclass has a chain that starts with it. -/
theorem SuperclassChain.exists_cons (supers : graph.SuperclassChain name chain) (above : graph.HasSuperclass name upper)
    (differs : upper ≠ name) : ∃ rest, chain = upper :: rest := by
  cases chain with
  | nil => exact absurd (List.mem_singleton.mp (supers.ended name rfl upper above)) differs
  | cons next rest =>
    obtain ⟨aboveToo, -⟩ := List.isChain_cons_cons.mp supers.linked
    exact ⟨rest, by rw [above.eq aboveToo]⟩

/-- **The chain of the superclass** is the rest of the chain, with the class itself behind it if it is its own
ancestor. -/
theorem SuperclassChain.above (supers : graph.SuperclassChain name (upper :: chain)) :
    graph.SuperclassChain upper chain ∨ graph.SuperclassChain upper (chain ++ [name]) := by
  obtain ⟨linked, distinct, ended⟩ := supers
  obtain ⟨above, linked⟩ := List.isChain_cons_cons.mp linked
  obtain ⟨new, distinct⟩ := List.nodup_cons.mp distinct
  rw [List.getLast?_cons_cons] at ended
  by_cases back : ∃ last ∈ (upper :: chain).getLast?, graph.HasSuperclass last name
  · obtain ⟨last, isLast, back⟩ := back
    refine .inr ⟨?_, ?_, ?_⟩
    · rw [← List.cons_append]
      refine List.isChain_append.mpr ⟨linked, List.isChain_singleton name, ?_⟩
      rintro other otherLast _ ⟨⟩
      rwa [Option.mem_unique otherLast isLast]
    · rw [← List.cons_append]
      exact List.nodup_append_comm.mp (List.nodup_cons.mpr ⟨new, distinct⟩)
    · intro final isFinal next behind
      rw [← List.cons_append, List.getLast?_append_cons, List.getLast?_singleton] at isFinal
      cases isFinal
      rw [← above.eq behind]
      exact List.mem_cons_self
  · refine .inl ⟨linked, distinct, fun last isLast next behind => ?_⟩
    obtain rfl | inside := List.mem_cons.mp (ended last isLast next behind)
    · exact absurd ⟨last, isLast, behind⟩ back
    · exact inside

/-! ### Names that are left out -/

/-- The name is that of the class, or one that its own interfaces lead to. -/
def OwnPart (graph : Graph) (name owner : String) : Prop :=
  owner = name ∨ ∃ interface ∈ graph.interfacesOf name, Relation.ReflTransGen graph.HasInterface interface owner

theorem ownPart_iff {owner : String} :
    graph.OwnPart name owner ↔ Relation.ReflTransGen graph.HasInterface name owner := by
  rw [Relation.ReflTransGen.cases_head_iff, eq_comm]
  rfl

/-- Names and the interfaces behind them, where some names are marked beforehand. -/
def outside (graph : Graph) (marked names : List String) : List String :=
  names ++ graph.interfaceWalk (marked ++ names) (names.flatMap graph.interfacesOf)

section Closed

variable (closed : ∀ name ∈ marked, ∀ interface, graph.HasInterface name interface → interface ∈ marked)
include closed

/-- Interfaces of marked names make no difference. -/
theorem interfaceWalk_flatMap_filter (seen names : List String) (all : ∀ name ∈ marked, name ∈ seen) :
    graph.interfaceWalk seen ((names.filter (· ∉ marked)).flatMap graph.interfacesOf) =
      graph.interfaceWalk seen (names.flatMap graph.interfacesOf) := by
  induction names generalizing seen with
  | nil => rfl
  | cons name names ih =>
    rw [List.flatMap_cons, interfaceWalk_append]
    by_cases inMarked : name ∈ marked
    · have nothing : graph.interfaceWalk seen (graph.interfacesOf name) = [] :=
        interfaceWalk_eq_nil fun interface declared => all interface (closed name inMarked interface declared)
      rw [List.filter_cons_of_neg (by simpa using inMarked), nothing, List.nil_append, List.nil_append, ih seen all]
    · rw [List.filter_cons_of_pos (by simpa using inMarked), List.flatMap_cons, interfaceWalk_append,
        ih _ fun name inside => List.mem_append_right _ (all name inside)]

/-- **The ancestors without marked names** depend on the class and its chain without marked names only. -/
theorem filter_ancestors (name : String) (chain : List String) :
    (name :: (chain ++ graph.interfacesBehind name chain)).filter (· ∉ marked) =
      graph.outside marked ((name :: chain).filter (· ∉ marked)) := by
  unfold outside interfacesBehind
  rw [← List.cons_append, List.filter_append, filter_interfaceWalk closed,
    interfaceWalk_flatMap_filter closed _ _ fun name inside => List.mem_append_left _ inside]
  refine congrArg _ (interfaceWalk_congr (fun other => ?_) _)
  simp only [List.mem_append, List.mem_filter, decide_eq_true_eq]
  tauto

end Closed

end Graph

namespace Resolver

variable {graph : Graph} {marked : List String} {name superName : String}

/-- **A class and its superclass ask the same classes in the same order**, apart from the class and names that are
closed under interfaces. -/
theorem filter_order (above : graph.HasSuperclass name superName) (inside : name ∈ marked)
    (closed : ∀ name ∈ marked, ∀ interface, graph.HasInterface name interface → interface ∈ marked) :
    (order graph name).filter (· ∉ marked) = (order graph superName).filter (· ∉ marked) := by
  obtain rfl | differs := eq_or_ne superName name
  · rfl
  obtain ⟨chain, supers, found⟩ := Graph.exists_chain graph name
  obtain ⟨superChain, superSupers, superFound⟩ := Graph.exists_chain graph superName
  obtain ⟨rest, rfl⟩ := supers.exists_cons above differs
  -- the chains differ by the class itself, which is left out
  have same : (superName :: superChain).filter (· ∉ marked) = (superName :: rest).filter (· ∉ marked) := by
    obtain short | long := supers.above
    · rw [superSupers.unique short]
    · have none : [name].filter (· ∉ marked) = [] := List.filter_cons_of_neg (by simpa using inside)
      rw [superSupers.unique long, ← List.cons_append, List.filter_append, none, List.append_nil]
  rw [order, order, found, superFound, Graph.filter_ancestors closed, Graph.filter_ancestors closed, same,
    List.filter_cons_of_neg (by simpa using inside)]

/-- Names without an answer can be left out. -/
theorem findSome?_filter {list : List String} {answer : String → Option String}
    (silent : ∀ name ∈ marked, answer name = none) :
    (list.filter (· ∉ marked)).findSome? answer = list.findSome? answer := by
  induction list with
  | nil => rfl
  | cons name list ih =>
    by_cases inMarked : name ∈ marked
    · rw [List.filter_cons_of_neg (by simpa using inMarked), List.findSome?_cons, silent name inMarked, ih]
    · rw [List.filter_cons_of_pos (by simpa using inMarked), List.findSome?_cons, List.findSome?_cons, ih]

/-- An answer is inherited from the superclass, if the class and what its interfaces lead to have none. -/
theorem inherited?_superclass (resolver : Resolver)
    (above : resolver.graph.HasSuperclass name superName) {answer : String → Option String}
    (silent : ∀ owner, resolver.graph.OwnPart name owner → answer owner = none) :
    resolver.inherited? name answer = resolver.inherited? superName answer := by
  let marked := resolver.graph.interfaceWalk [] [name]
  have inside : name ∈ marked := (Graph.mem_interfaceWalk_of_mem List.mem_cons_self).resolve_right List.not_mem_nil
  have closed (owner : String) (member : owner ∈ marked) (interface : String)
      (declared : resolver.graph.HasInterface owner interface) : interface ∈ marked :=
    (Graph.mem_interfaceWalk_of_interface member declared).resolve_right List.not_mem_nil
  have silentMarked (owner : String) (member : owner ∈ marked) : answer owner = none := by
    obtain ⟨root, isRoot, reached⟩ := Graph.exists_root_of_mem member
    rw [List.mem_singleton.mp isRoot] at reached
    exact silent owner (Graph.ownPart_iff.mpr reached)
  rw [inherited?_eq, inherited?_eq, ← findSome?_filter silentMarked, filter_order above inside closed,
    findSome?_filter silentMarked]

/-- **A class that adds nothing has the members of its superclass.** If neither the class nor anything that its
interfaces lead to has an entry for a member, the member gets the name that the superclass has for it. -/
theorem resolve_superclass (headers : List Header) (table : Table)
    (above : (({} : Graph).insertAll headers).HasSuperclass name superName) :
    let graph := ({} : Graph).insertAll headers
    let resolver := Resolver.mk table graph
    (∀ method descriptor, (∀ owner, graph.OwnPart name owner → table.method? owner method descriptor = none) →
      resolver.method? name method descriptor = resolver.method? superName method descriptor) ∧
    ∀ field, (∀ owner, graph.OwnPart name owner → table.field? owner field = none) →
      resolver.field? name field = resolver.field? superName field := by
  intro graph resolver
  constructor
  · exact fun method descriptor silent => resolver.inherited?_superclass above silent
  · exact fun field silent => resolver.inherited?_superclass above silent

/-! ### Classes in a circle -/

/-- The classes `d`, `c` and `b` are superclasses of each other in a circle, `c` names `d` as an interface, too, and the
interface `i` extends itself. The interface `l` is met below `d` and below `c`. -/
def loops : List Header :=
  [{ name := "d", superName := some "c", interfaces := ["i"], flags := 1 },
    { name := "c", superName := some "b", interfaces := ["j", "d"], flags := 1 },
    { name := "b", superName := some "d", interfaces := ["x"], flags := 1 },
    { name := "i", superName := none, interfaces := ["i", "l"], flags := 1 },
    { name := "j", superName := none, interfaces := ["l", "a"], flags := 1 }]

/-- The graph of these classes. -/
def looped : Graph :=
  ({} : Graph).insertAll loops

theorem get?_looped (name : String) :
    looped.get? name = loops.find? fun header => header.name == name := by
  rw [looped, Graph.get?_insertAll, Graph.get?_empty, Option.none_or]

theorem chain_looped : looped.SuperclassChain "c" ["b", "d"] where
  linked := by simp [Graph.HasSuperclass, get?_looped, loops]
  distinct := by decide
  ended := by
    rintro last ⟨⟩ upper above
    simp [Graph.HasSuperclass, get?_looped, loops] at above
    simp [← above]

theorem order_looped : order looped "c" = ["c", "b", "d", "j", "l", "a", "x", "i"] := by
  obtain ⟨chain, supers, found⟩ := Graph.exists_chain looped "c"
  rw [order, found, supers.unique chain_looped, Graph.interfacesBehind]
  simp [Graph.interfacesOf, Graph.interfaceWalk, get?_looped, loops]

theorem ownPart_looped {owner : String} (own : looped.OwnPart "d" owner) :
    owner = "d" ∨ owner = "i" ∨ owner = "l" := by
  induction Graph.ownPart_iff.mp own with
  | refl => exact .inl rfl
  | @tail lower upper before declared ih =>
    rw [Graph.HasInterface, Graph.interfacesOf, get?_looped] at declared
    obtain rfl | rfl | rfl := ih (Graph.ownPart_iff.mpr before) <;> simp [loops] at declared <;> simp [declared]

/-- The class `d` has the method and the field that interfaces give to `c`. -/
theorem resolve_superclass_looped : ∃ table, Table.ofEntries Table.exchange .forward = .ok table ∧
    (Resolver.mk table looped).method? "d" "m" "(La;)V" = some "n" ∧
    (Resolver.mk table looped).field? "d" "f" = some "g" := by
  obtain ⟨table, done⟩ := Table.exists_exchange
  have holds := Table.holds_ofForward done
  have method : table.method? "a" "m" "(La;)V" = some "n" :=
    (holds (.ofMethod "a" "m" "(La;)V" "n")).mpr ⟨1, by simp [Table.exchange]⟩
  have field : table.field? "x" "f" = some "g" := (holds (.ofField "x" "f" "g")).mpr ⟨2, by simp [Table.exchange]⟩
  have silentMethod (owner : String) (other : owner ≠ "a") : table.method? owner "m" "(La;)V" = none :=
    Table.get?_ofForward_eq_none done (.ofMethod owner "m" "(La;)V")
      (by simp [Table.exchange, Mapping.Entry.key, other.symm])
  have silentField (owner : String) (other : owner ≠ "x") : table.field? owner "f" = none :=
    Table.get?_ofForward_eq_none done (.ofField owner "f") (by simp [Table.exchange, Mapping.Entry.key, other.symm])
  have above : looped.HasSuperclass "d" "c" := by
    rw [Graph.HasSuperclass, get?_looped]
    rfl
  obtain ⟨methods, fields⟩ := resolve_superclass loops table above
  refine ⟨table, Table.ofEntries_forward.trans done, ?_, ?_⟩
  · refine (methods "m" "(La;)V" fun owner own => silentMethod owner ?_).trans ?_
    · obtain rfl | rfl | rfl := ownPart_looped own <;> decide
    · show (Resolver.mk table looped).method? "c" "m" "(La;)V" = some "n"
      rw [method?, inherited?_eq, order_looped]
      simp [silentMethod, method]
  · refine (fields "f" fun owner own => silentField owner ?_).trans ?_
    · obtain rfl | rfl | rfl := ownPart_looped own <;> decide
    · show (Resolver.mk table looped).field? "c" "f" = some "g"
      rw [field?, inherited?_eq, order_looped]
      simp [silentField, field]

end Resolver

end JarRename
