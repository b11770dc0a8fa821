import JarRename.Proofs.Hierarchy.Graph
import Mathlib.Data.List.Nodup
import Mathlib.Logic.Relation

/-!
**Interfaces, depth first.**

Interfaces are walked with a stack, and a name is marked when it is taken from the stack. What comes out is the
recursive depth-first order, in which each interface is followed by everything below it. The walk depends on the set of
marks only, and names from which no unmarked name can be reached may be marked beforehand without a change for the
others.

* `Graph.depthFirst`: the recursive order;
* `Graph.interfaceWalk`, `Graph.interfaceWalk_eq_depthFirst`: a walk with a stack, which has this order;
* `Graph.interfaceWalk_congr`, `Graph.interfaceWalk_append`: walks with the same marks, and one after the other;
* `Graph.exists_root_of_mem`, `Graph.mem_interfaceWalk_of_interface`: which names a walk meets;
* `Graph.filter_interfaceWalk`: names marked beforehand.
-/

namespace JarRename.Graph

variable {graph : Graph} {seen other marked stack : List String} {name member : String}

/-! ### The recursive order -/

/-- The class declares the interface. -/
def HasInterface (graph : Graph) (name interface : String) : Prop :=
  interface ∈ graph.interfacesOf name

/-- Seeing more names leaves no more classes unseen. -/
theorem length_unseen_append_le (graph : Graph) (more seen : List String) :
    (graph.unseen (more ++ seen)).length ≤ (graph.unseen seen).length := by
  induction more with
  | nil => exact Nat.le_refl _
  | cons name more ih => exact Nat.le_trans (length_unseen_cons_le graph (more ++ seen) name) ih

/-- Names in depth-first order: each new name is followed by what its interfaces lead to, and then by the other names,
for which all of these are seen. -/
def depthFirst (graph : Graph) (seen : List String) : List String → List String
  | [] => []
  | name :: rest =>
    if _met : seen.contains name = true then graph.depthFirst seen rest
    else
      let below := graph.depthFirst (name :: seen) (graph.interfacesOf name)
      name :: below ++ graph.depthFirst (below ++ name :: seen) rest
termination_by names => ((graph.unseen seen).length, names.length)
decreasing_by
  · apply Prod.Lex.right
    simp
  · rcases graph.fewer_unseen _met with fewer | ⟨noMore, none⟩
    · exact Prod.Lex.left _ _ fewer
    · rw [none]
      exact Prod.Lex.right' _ noMore (Nat.succ_pos _)
  · have noMore := length_unseen_append_le graph (below ++ [name]) seen
    rw [List.append_assoc, List.singleton_append] at noMore
    exact Prod.Lex.right' _ noMore (Nat.lt_succ_self _)

/-! ### Walks with a stack -/

/-- Interfaces with all interfaces they extend, in the order in which a stack yields them, without names met already. -/
def interfaceWalk (graph : Graph) (seen : List String) : List String → List String
  | [] => []
  | name :: rest =>
    if _met : seen.contains name = true then graph.interfaceWalk seen rest
    else name :: graph.interfaceWalk (name :: seen) (graph.interfacesOf name ++ rest)
termination_by stack => ((graph.unseen seen).length, stack.length)
decreasing_by
  · apply Prod.Lex.right
    simp
  · rcases graph.fewer_unseen _met with fewer | ⟨noMore, none⟩
    · exact Prod.Lex.left _ _ fewer
    · rw [none]
      exact Prod.Lex.right' _ noMore (Nat.lt_succ_self _)

theorem interfaceWalk_nil (graph : Graph) (seen : List String) : graph.interfaceWalk seen [] = [] := by
  rw [interfaceWalk]

theorem interfaceWalk_of_mem (met : name ∈ seen) :
    graph.interfaceWalk seen (name :: stack) = graph.interfaceWalk seen stack := by
  rw [interfaceWalk, dif_pos (List.contains_iff_mem.mpr met)]

theorem interfaceWalk_of_not_mem (fresh : name ∉ seen) :
    graph.interfaceWalk seen (name :: stack) =
      name :: graph.interfaceWalk (name :: seen) (graph.interfacesOf name ++ stack) := by
  rw [interfaceWalk, dif_neg (mt List.contains_iff_mem.mp fresh)]

/-- Induction along a walk: a name on the stack is dropped if it is marked, and replaced by its interfaces if not. -/
theorem walk_induction {motive : List String → List String → Prop} (graph : Graph) (nil : ∀ seen, motive seen [])
    (met : ∀ seen name rest, name ∈ seen → motive seen rest → motive seen (name :: rest))
    (fresh : ∀ seen name rest, name ∉ seen → motive (name :: seen) (graph.interfacesOf name ++ rest) →
      motive seen (name :: rest)) (seen stack : List String) : motive seen stack := by
  induction seen, stack using interfaceWalk.induct graph with
  | case1 seen => exact nil seen
  | case2 seen name rest known ih => exact met seen name rest (List.contains_iff_mem.mp known) ih
  | case3 seen name rest new ih => exact fresh seen name rest (mt List.contains_iff_mem.mpr new) ih

/-- **A walk depends on the set of marks only.** -/
theorem interfaceWalk_congr (same : ∀ name, name ∈ seen ↔ name ∈ other) (stack : List String) :
    graph.interfaceWalk seen stack = graph.interfaceWalk other stack := by
  induction seen, stack using walk_induction graph generalizing other with
  | nil => rw [interfaceWalk, interfaceWalk]
  | met seen name rest known ih =>
    rw [interfaceWalk_of_mem known, interfaceWalk_of_mem ((same name).mp known), ih same]
  | fresh seen name rest new ih =>
    rw [interfaceWalk_of_not_mem new, interfaceWalk_of_not_mem (mt (same name).mpr new), ih fun name => ?_]
    rw [List.mem_cons, List.mem_cons, same]

/-- **A walk is a walk over the first names and one over the others**, for which what was met is marked. -/
theorem interfaceWalk_append (graph : Graph) (seen first second : List String) :
    graph.interfaceWalk seen (first ++ second) =
      graph.interfaceWalk seen first ++ graph.interfaceWalk (graph.interfaceWalk seen first ++ seen) second := by
  induction seen, first using walk_induction graph with
  | nil seen => rw [interfaceWalk, List.nil_append, List.nil_append, List.nil_append]
  | met seen name rest known ih => rw [List.cons_append, interfaceWalk_of_mem known, interfaceWalk_of_mem known, ih]
  | fresh seen name rest new ih =>
    rw [List.cons_append, interfaceWalk_of_not_mem new, interfaceWalk_of_not_mem new, ← List.append_assoc, ih,
      List.cons_append]
    refine congrArg (name :: _ ++ ·) (interfaceWalk_congr (fun other => ?_) second)
    simp only [List.mem_append, List.mem_cons, List.cons_append]
    exact or_left_comm

/-- **The walk with a stack is the recursive depth-first order.** -/
theorem interfaceWalk_eq_depthFirst (graph : Graph) (seen stack : List String) :
    graph.interfaceWalk seen stack = graph.depthFirst seen stack := by
  fun_induction graph.depthFirst seen stack with
  | case1 => rw [interfaceWalk]
  | case2 seen name rest met ih => rw [interfaceWalk_of_mem (List.contains_iff_mem.mp met), ih]
  | case3 seen name rest fresh below ihBelow ihRest =>
    rw [interfaceWalk_of_not_mem (mt List.contains_iff_mem.mpr fresh), interfaceWalk_append, ihBelow, ihRest,
      List.cons_append]

/-! ### The names that a walk meets -/

/-- A walk meets no marked name. -/
theorem not_mem_of_mem_interfaceWalk (inside : member ∈ graph.interfaceWalk seen stack) : member ∉ seen := by
  induction seen, stack using walk_induction graph with
  | nil =>
    rw [interfaceWalk] at inside
    cases inside
  | met seen name rest known ih =>
    rw [interfaceWalk_of_mem known] at inside
    exact ih inside
  | fresh seen name rest new ih =>
    rw [interfaceWalk_of_not_mem new] at inside
    obtain rfl | inside := List.mem_cons.mp inside
    · exact new
    · exact fun marked => ih inside (List.mem_cons_of_mem _ marked)

/-- A walk meets no name twice. -/
theorem nodup_interfaceWalk (graph : Graph) (seen stack : List String) : (graph.interfaceWalk seen stack).Nodup := by
  induction seen, stack using walk_induction graph with
  | nil =>
    rw [interfaceWalk]
    exact .nil
  | met seen name rest known ih =>
    rw [interfaceWalk_of_mem known]
    exact ih
  | fresh seen name rest new ih =>
    rw [interfaceWalk_of_not_mem new]
    exact List.nodup_cons.mpr ⟨fun again => not_mem_of_mem_interfaceWalk again List.mem_cons_self, ih⟩

/-- Every name that a walk meets is reached from the stack along interfaces. -/
theorem exists_root_of_mem (inside : member ∈ graph.interfaceWalk seen stack) :
    ∃ root ∈ stack, Relation.ReflTransGen graph.HasInterface root member := by
  induction seen, stack using walk_induction graph with
  | nil =>
    rw [interfaceWalk] at inside
    cases inside
  | met seen name rest known ih =>
    rw [interfaceWalk_of_mem known] at inside
    obtain ⟨root, onStack, reached⟩ := ih inside
    exact ⟨root, List.mem_cons_of_mem _ onStack, reached⟩
  | fresh seen name rest new ih =>
    rw [interfaceWalk_of_not_mem new] at inside
    obtain rfl | inside := List.mem_cons.mp inside
    · exact ⟨member, List.mem_cons_self, .refl⟩
    · obtain ⟨root, onStack, reached⟩ := ih inside
      obtain declared | onStack := List.mem_append.mp onStack
      · exact ⟨name, List.mem_cons_self, .head declared reached⟩
      · exact ⟨root, List.mem_cons_of_mem _ onStack, reached⟩

/-- A walk meets all names on the stack that are not marked. -/
theorem mem_interfaceWalk_of_mem (onStack : member ∈ stack) :
    member ∈ graph.interfaceWalk seen stack ∨ member ∈ seen := by
  induction seen, stack using walk_induction graph with
  | nil => cases onStack
  | met seen name rest known ih =>
    rw [interfaceWalk_of_mem known]
    obtain rfl | onStack := List.mem_cons.mp onStack
    · exact .inr known
    · exact ih onStack
  | fresh seen name rest new ih =>
    rw [interfaceWalk_of_not_mem new, List.mem_cons]
    obtain rfl | onStack := List.mem_cons.mp onStack
    · exact .inl (.inl rfl)
    · obtain inside | marked := ih (List.mem_append_right _ onStack)
      · exact .inl (.inr inside)
      · exact (List.mem_cons.mp marked).imp .inl id

/-- A walk meets all interfaces of the names that it meets, as far as they are not marked. -/
theorem mem_interfaceWalk_of_interface {interface : String} (inside : member ∈ graph.interfaceWalk seen stack)
    (declared : graph.HasInterface member interface) :
    interface ∈ graph.interfaceWalk seen stack ∨ interface ∈ seen := by
  induction seen, stack using walk_induction graph with
  | nil =>
    rw [interfaceWalk] at inside
    cases inside
  | met seen name rest known ih =>
    rw [interfaceWalk_of_mem known] at inside ⊢
    exact ih inside
  | fresh seen name rest new ih =>
    rw [interfaceWalk_of_not_mem new, List.mem_cons] at inside ⊢
    have later : interface ∈ graph.interfaceWalk (name :: seen) (graph.interfacesOf name ++ rest) ∨
        interface ∈ name :: seen := by
      obtain rfl | inside := inside
      · exact mem_interfaceWalk_of_mem (List.mem_append_left _ declared)
      · exact ih inside
    obtain inside | marked := later
    · exact .inl (.inr inside)
    · exact (List.mem_cons.mp marked).imp .inl id

/-- A walk meets names that it starts with and names in the graph. -/
theorem mentions_of_mem_interfaceWalk (inside : member ∈ graph.interfaceWalk seen stack) :
    member ∈ stack ∨ graph.Mentions member := by
  induction seen, stack using walk_induction graph with
  | nil =>
    rw [interfaceWalk] at inside
    cases inside
  | met seen name rest known ih =>
    rw [interfaceWalk_of_mem known] at inside
    exact (ih inside).imp_left (List.mem_cons_of_mem _)
  | fresh seen name rest new ih =>
    rw [interfaceWalk_of_not_mem new] at inside
    obtain rfl | inside := List.mem_cons.mp inside
    · exact .inl List.mem_cons_self
    · obtain listed | mentioned := ih inside
      · obtain declared | onStack := List.mem_append.mp listed
        · exact .inr (mentions_interfacesOf declared)
        · exact .inl (List.mem_cons_of_mem _ onStack)
      · exact .inr mentioned

/-! ### Names marked beforehand -/

/-- A walk over marked names meets nothing. -/
theorem interfaceWalk_eq_nil (all : ∀ name ∈ stack, name ∈ seen) : graph.interfaceWalk seen stack = [] := by
  induction stack with
  | nil => rw [interfaceWalk]
  | cons name rest ih =>
    obtain ⟨here, behind⟩ := List.forall_mem_cons.mp all
    rw [interfaceWalk_of_mem here, ih behind]

/-- **Names marked beforehand** are left out, and all others are met in the same order, if no interface leads from a
marked name to one that is not. -/
theorem filter_interfaceWalk (closed : ∀ name ∈ marked, ∀ interface, graph.HasInterface name interface →
      interface ∈ marked) (seen stack : List String) :
    (graph.interfaceWalk seen stack).filter (· ∉ marked) = graph.interfaceWalk (marked ++ seen) stack := by
  induction seen, stack using walk_induction graph with
  | nil => rw [interfaceWalk, interfaceWalk, List.filter_nil]
  | met seen name rest known ih =>
    rw [interfaceWalk_of_mem known, interfaceWalk_of_mem (List.mem_append_right _ known), ih]
  | fresh seen name rest new ih =>
    have same (other : String) : other ∈ marked ++ name :: seen ↔ other ∈ name :: (marked ++ seen) := by
      simp only [List.mem_append, List.mem_cons]
      exact or_left_comm
    rw [interfaceWalk_of_not_mem new]
    by_cases inMarked : name ∈ marked
    · -- everything below the name is marked, so only the rest of the stack is walked
      rw [List.filter_cons_of_neg (by simpa using inMarked), ih, interfaceWalk_append,
        interfaceWalk_eq_nil fun interface declared => List.mem_append_left _ (closed name inMarked interface declared),
        interfaceWalk_of_mem (List.mem_append_left _ inMarked), List.nil_append, List.nil_append]
      refine interfaceWalk_congr (fun other => (same other).trans ?_) rest
      rw [List.mem_cons, or_iff_right_of_imp]
      rintro rfl
      exact List.mem_append_left _ inMarked
    · have outside : name ∉ marked ++ seen := by
        rw [List.mem_append]
        exact not_or.mpr ⟨inMarked, new⟩
      rw [List.filter_cons_of_pos (by simpa using inMarked), ih, interfaceWalk_of_not_mem outside,
        interfaceWalk_congr same]

end JarRename.Graph
