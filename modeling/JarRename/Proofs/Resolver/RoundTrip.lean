import JarRename.Proofs.Hierarchy.Renamed
import JarRename.Proofs.Mapping.Reverse
import JarRename.Resolver

/-!
**Resolving back.**

A new name that a resolver gives to a member is resolved back to the old name, by the reversed table and through the
renamed hierarchy. Classes have to keep apart, and none of the classes passed over on the way may give the new name to
a member of its own.

* `Resolver.order`, `Resolver.passedOver`: the classes that are asked for the name of a member, and those that do not
  answer;
* `Resolver.Concerns`: the class names that a resolution deals with;
* `Resolver.findSome?_back`: an answer found the same way back;
* `Resolver.field?_back`, `Resolver.method?_back`: fields and methods;
* `Resolver.resolve_back`: both, from the entries of a mapping.
-/

namespace JarRename

open Mapping

/-- The name is that of the owner of the entry, or of a class in its descriptor. -/
def Mapping.Entry.Mentions (name : String) : Entry → Prop
  | ofClass _ _ => False
  | ofField owner _ _ => name = owner
  | ofMethod owner _ descriptor _ =>
    name = owner ∨ ∃ type, MethodType.parse descriptor = .ok type ∧ name ∈ type.classNames

namespace Resolver

variable {entries : List Numbered} {forward reverse : Table} {graph : Graph} {owner old new : String}

/-! ### The order of classes -/

/-- The classes that are asked for the name of a member, in order. -/
def order (graph : Graph) (owner : String) : List String :=
  owner :: graph.ancestors owner

/-- The classes that are asked in front of the first one that answers. -/
def passedOver (graph : Graph) (owner : String) (answer : String → Option String) : List String :=
  (order graph owner).takeWhile fun name => (answer name).isNone

theorem inherited?_eq (resolver : Resolver) (owner : String) (answer : String → Option String) :
    resolver.inherited? owner answer = (order resolver.graph owner).findSome? answer := by
  rw [inherited?, order, List.findSome?_cons]
  cases answer owner <;> rfl

/-- **An answer is found the same way back**, if the class that gives it answers back and those passed over do not. -/
theorem findSome?_back {list : List String} {answer back : String → Option String} {rename : String → String}
    (found : list.findSome? answer = some new)
    (silent : ∀ name ∈ list.takeWhile fun name => (answer name).isNone, back (rename name) = none)
    (answers : ∀ name ∈ list, answer name = some new → back (rename name) = some old) :
    (list.map rename).findSome? back = some old := by
  induction list with
  | nil => cases found
  | cons name rest ih =>
    rw [List.map_cons, List.findSome?_cons]
    rw [List.findSome?_cons] at found
    cases here : answer name with
    | some first =>
      rw [here] at found
      rw [answers name List.mem_cons_self (here.trans found)]
    | none =>
      rw [here] at found
      simp only [List.takeWhile_cons, here, Option.isNone_none, if_true, List.forall_mem_cons] at silent
      rw [silent.1]
      exact ih found silent.2 fun other member => answers other (List.mem_cons_of_mem _ member)

/-! ### Names that are kept apart -/

/-- The class names that the resolution for an owner deals with: those in the graph, the owner, and those in the
entries. The descriptor of a method that is resolved is that of an entry. -/
def Concerns (graph : Graph) (owner : String) (entries : List Numbered) : Set String :=
  {name | graph.Mentions name ∨ name = owner ∨ ∃ numbered ∈ entries, numbered.2.Mentions name}

theorem concerns_order {name : String} (asked : name ∈ order graph owner) : name ∈ Concerns graph owner entries := by
  obtain rfl | ancestor := List.mem_cons.mp asked
  · exact .inr (.inl rfl)
  · exact .inl (Graph.mentions_of_mem_ancestors ancestor)

theorem concerns_entry (entry : Entry) {name : String} (done : Table.ofForward entries = .ok forward)
    (held : forward.Holds entry) (mentioned : entry.Mentions name) : name ∈ Concerns graph owner entries := by
  obtain ⟨line, member⟩ := (Table.holds_ofForward done entry).mp held
  exact .inr (.inr ⟨_, member, mentioned⟩)

/-- The descriptor of a method that has an entry is read, and the resolution deals with its classes. -/
theorem exists_type_of_method? {descriptor : String} (done : Table.ofForward entries = .ok forward)
    (found : forward.method? owner old descriptor = some new) {asked : String} :
    ∃ type, MethodType.parse descriptor = .ok type ∧
      ∀ name ∈ type.classNames, name ∈ Concerns graph asked entries := by
  obtain ⟨readable, -⟩ := Table.exists_ofForward_iff.mp ⟨forward, done⟩
  obtain ⟨line, member⟩ := (Table.holds_ofForward done (.ofMethod owner old descriptor new)).mp found
  obtain ⟨type, parsed⟩ := readable _ member
  exact ⟨type, parsed, fun name listed =>
    concerns_entry (.ofMethod owner old descriptor new) done found (.inr ⟨type, parsed, listed⟩)⟩

/-- The hierarchy renamed by a table that keeps all names apart. -/
theorem image_of_concerns (injective : Set.InjOn forward.classOrKeep (Concerns graph owner entries)) :
    graph.Image forward.classOrKeep (Concerns graph owner entries) (graph.rename forward.classOrKeep) :=
  Graph.image_rename injective fun _ => .inl

/-- The classes that are asked on the way back. -/
theorem order_rename (injective : Set.InjOn forward.classOrKeep (Concerns graph owner entries)) :
    order (graph.rename forward.classOrKeep) (forward.classOrKeep owner) =
      (order graph owner).map forward.classOrKeep := by
  rw [order, order, List.map_cons, (image_of_concerns injective).ancestors (.inr (.inl rfl))]

/-! ### Members -/

section Back

variable (done : Table.ofForward entries = .ok forward) (reversed : Table.ofReverse forward entries = .ok reverse)
variable (injective : Set.InjOn forward.classOrKeep (Concerns graph owner entries))
include done reversed injective

/-- **The new name of a field is resolved back.** -/
theorem field?_back (resolved : (Resolver.mk forward graph).field? owner old = some new)
    (free : ∀ other ∈ passedOver graph owner (forward.field? · old), ∀ name, forward.field? other name ≠ some new) :
    (Resolver.mk reverse (graph.rename forward.classOrKeep)).field? (forward.classOrKeep owner) new = some old := by
  rw [field?, inherited?_eq] at resolved ⊢
  rw [order_rename injective]
  refine findSome?_back resolved (fun other passed => ?_) fun other asked answered => ?_
  · -- an answer back would be that of an entry of the class itself
    refine Option.eq_none_iff_forall_not_mem.mpr fun name answered => ?_
    obtain ⟨entryOwner, found, same⟩ := (Table.field?_ofReverse done reversed _ _ _).mp answered
    have ownerInside : entryOwner ∈ Concerns graph owner entries :=
      concerns_entry (.ofField entryOwner name new) done found rfl
    have otherInside : other ∈ Concerns graph owner entries := concerns_order (List.takeWhile_subset _ passed)
    rw [← injective otherInside ownerInside same] at found
    exact free other passed name found
  · exact (Table.field?_ofReverse done reversed _ _ _).mpr ⟨other, answered, rfl⟩

/-- **The new name of a method is resolved back**, for the descriptor in the new spelling. -/
theorem method?_back (answers : ∀ name ∈ Concerns graph owner entries, ∀ renamed,
      forward.class? name = some renamed → IsClassName renamed) {descriptor : String}
    (resolved : (Resolver.mk forward graph).method? owner old descriptor = some new)
    (free : ∀ other ∈ passedOver graph owner (forward.method? · old descriptor), ∀ name,
      forward.method? other name descriptor ≠ some new) :
    ∃ spelled, forward.mapDescriptor descriptor = .ok spelled ∧
      (Resolver.mk reverse (graph.rename forward.classOrKeep)).method? (forward.classOrKeep owner) new spelled =
        some old := by
  rw [method?, inherited?_eq] at resolved
  obtain ⟨place, -, here⟩ := List.exists_of_findSome?_eq_some resolved
  obtain ⟨type, parsed, inside⟩ := exists_type_of_method? done here
  obtain ⟨spelled, renamed⟩ := Descriptor.exists_rename forward.class? parsed
  refine ⟨spelled, renamed, ?_⟩
  rw [method?, inherited?_eq, order_rename injective]
  refine findSome?_back resolved (fun other passed => ?_) fun other asked answered => ?_
  · refine Option.eq_none_iff_forall_not_mem.mpr fun name answered => ?_
    obtain ⟨entryOwner, entryDescriptor, found, same, renamedToo⟩ :=
      (Table.method?_ofReverse done reversed _ _ _ _).mp answered
    obtain ⟨entryType, entryParsed, entryInside⟩ := exists_type_of_method? done found
    have ownerInside : entryOwner ∈ Concerns graph owner entries :=
      concerns_entry (.ofMethod entryOwner name entryDescriptor new) done found (.inl rfl)
    have otherInside : other ∈ Concerns graph owner entries := concerns_order (List.takeWhile_subset _ passed)
    rw [← injective otherInside ownerInside same, ← Descriptor.eq_of_rename injective answers parsed entryParsed inside
      entryInside renamed renamedToo] at found
    exact free other passed name found
  · exact (Table.method?_ofReverse done reversed _ _ _ _).mpr ⟨other, descriptor, answered, rfl, renamed⟩

end Back

/-- **Reverse resolution undoes resolution through inheritance.** For a mapping that has tables in both directions and
keeps the classes apart, a new name is resolved back to the old one in the renamed hierarchy, if no class passed over on
the way to it has an entry with the new name. -/
theorem resolve_back (done : Table.ofEntries entries .forward = .ok forward)
    (reversed : Table.ofEntries entries .reverse = .ok reverse)
    (answers : ∀ name ∈ Concerns graph owner entries, ∀ renamed, forward.class? name = some renamed →
      IsClassName renamed)
    (injective : Set.InjOn forward.classOrKeep (Concerns graph owner entries)) :
    (∀ old new, (Resolver.mk forward graph).field? owner old = some new →
      (∀ other ∈ passedOver graph owner (forward.field? · old), ∀ name, forward.field? other name ≠ some new) →
      (Resolver.mk reverse (graph.rename forward.classOrKeep)).field? (forward.classOrKeep owner) new = some old) ∧
    ∀ old descriptor new, (Resolver.mk forward graph).method? owner old descriptor = some new →
      (∀ other ∈ passedOver graph owner (forward.method? · old descriptor), ∀ name,
        forward.method? other name descriptor ≠ some new) →
      ∃ spelled, forward.mapDescriptor descriptor = .ok spelled ∧
        (Resolver.mk reverse (graph.rename forward.classOrKeep)).method? (forward.classOrKeep owner) new spelled =
          some old := by
  rw [Table.ofEntries_forward] at done
  rw [Table.ofEntries_reverse done] at reversed
  refine ⟨fun old new resolved free => ?_, fun old descriptor new resolved free => ?_⟩
  · exact field?_back done reversed injective resolved free
  · exact method?_back done reversed injective answers resolved free

/-! ### Two classes that exchange their names, inherited -/

/-- A class `c` with a superclass `a` that is known and an interface `x` that is not. -/
def heirs : Graph :=
  (({} : Graph).insert { name := "a", superName := none, interfaces := [], flags := 1 }).insert
    { name := "c", superName := some "a", interfaces := ["x"], flags := 1 }

theorem get?_heirs (name : String) : heirs.get? name =
    if name = "a" then some { name := "a", superName := none, interfaces := [], flags := 1 }
    else if name = "c" then some { name := "c", superName := some "a", interfaces := ["x"], flags := 1 } else none := by
  simp only [heirs, Graph.get?_insert, Graph.get?_empty, Option.none_or, eq_comm]
  split_ifs <;> rfl

theorem order_heirs : order heirs "c" = ["c", "a", "x"] := by
  simp [order, Graph.ancestors_eq_lineage, Graph.lineage, Graph.superclasses, Graph.superChain_eq, Graph.interfaceWalk,
    Graph.interfacesOf, get?_heirs]

theorem concerns_heirs {name : String} (concerned : name ∈ Concerns heirs "c" Table.exchange) :
    name = "a" ∨ name = "c" ∨ name = "x" := by
  rcases concerned with ⟨known, header, found, mentioned⟩ | rfl | ⟨numbered, member, mentioned⟩
  · rw [get?_heirs] at found
    split_ifs at found with first second
    · cases found
      simp_all
    · cases found
      simp only [second, Option.some.injEq, List.mem_singleton] at mentioned
      tauto
  · exact .inr (.inl rfl)
  · simp only [Table.exchange, List.mem_cons, List.not_mem_nil, or_false] at member
    rcases member with rfl | rfl | rfl | rfl | rfl
    · rcases mentioned with rfl | ⟨type, parsed, listed⟩
      · exact .inl rfl
      · cases (Table.parse_consumer "a" (by simp [IsClassName]) (by decide +kernel)).symm.trans parsed
        exact .inl (by simpa [MethodType.classNames, FieldType.className?] using listed)
    · exact .inr (.inr mentioned)
    all_goals exact mentioned.elim

/-- The class names that the exchange gives to the heirs. -/
theorem classOrKeep_heirs (done : Table.ofForward Table.exchange = .ok forward) {name : String}
    (concerned : name ∈ Concerns heirs "c" Table.exchange) :
    forward.classOrKeep name = if name = "a" then "b" else name := by
  rcases concerns_heirs concerned with rfl | rfl | rfl <;>
    simp [Table.classOrKeep, renameOrKeep, Table.class?_exchange done]

theorem resolve_back_heirs : ∃ forward reverse, Table.ofEntries Table.exchange .forward = .ok forward ∧
    Table.ofEntries Table.exchange .reverse = .ok reverse ∧
    (Resolver.mk reverse (heirs.rename forward.classOrKeep)).field? "c" "g" = some "f" ∧
    (Resolver.mk reverse (heirs.rename forward.classOrKeep)).method? "c" "n" "(Lb;)V" = some "m" := by
  obtain ⟨forward, done⟩ := Table.exists_exchange
  obtain ⟨reverse, reversed⟩ := Table.exists_exchangeBack done
  obtain ⟨-, -, spelling⟩ := Table.spelling_exchange done
  have answers : ∀ name ∈ Concerns heirs "c" Table.exchange, ∀ renamed, forward.class? name = some renamed →
      IsClassName renamed := by
    intro name concerned renamed found
    rw [Table.class?_exchange done] at found
    split_ifs at found <;> cases found <;> simp [IsClassName]
  have injective : Set.InjOn forward.classOrKeep (Concerns heirs "c" Table.exchange) := by
    intro first one second two same
    rw [classOrKeep_heirs done one, classOrKeep_heirs done two] at same
    rcases concerns_heirs one with rfl | rfl | rfl <;> rcases concerns_heirs two with rfl | rfl | rfl <;> simp_all
  have kept : forward.classOrKeep "c" = "c" := classOrKeep_heirs done (.inr (.inl rfl))
  have fields (owner name new : String) :
      forward.field? owner name = some new ↔ owner = "x" ∧ name = "f" ∧ new = "g" :=
    (Table.holds_ofForward done (.ofField owner name new)).trans (by simp [Table.exchange])
  have methods (owner name descriptor new : String) : forward.method? owner name descriptor = some new ↔
      owner = "a" ∧ name = "m" ∧ descriptor = "(La;)V" ∧ new = "n" :=
    (Table.holds_ofForward done (.ofMethod owner name descriptor new)).trans (by simp [Table.exchange])
  have silentField (owner : String) (other : owner ≠ "x") : forward.field? owner "f" = none :=
    Table.get?_ofForward_eq_none done (.ofField owner "f") (by simp [Table.exchange, Entry.key, other.symm])
  have silentMethod (owner : String) (other : owner ≠ "a") : forward.method? owner "m" "(La;)V" = none :=
    Table.get?_ofForward_eq_none done (.ofMethod owner "m" "(La;)V") (by simp [Table.exchange, Entry.key, other.symm])
  have field := (fields "x" "f" "g").mpr ⟨rfl, rfl, rfl⟩
  have method := (methods "a" "m" "(La;)V" "n").mpr ⟨rfl, rfl, rfl, rfl⟩
  rw [← Table.ofEntries_reverse done] at reversed
  rw [← Table.ofEntries_forward] at done
  -- the interface answers for the field, after the class and its superclass; the superclass for the method
  have fieldFound : (Resolver.mk forward heirs).field? "c" "f" = some "g" := by
    rw [field?, inherited?_eq]
    simp [order_heirs, silentField, field]
  have methodFound : (Resolver.mk forward heirs).method? "c" "m" "(La;)V" = some "n" := by
    rw [method?, inherited?_eq]
    simp [order_heirs, silentMethod, method]
  obtain ⟨fieldBack, methodBack⟩ := resolve_back done reversed answers injective
  rw [kept] at fieldBack methodBack
  obtain ⟨spelled, same, methodReturned⟩ := methodBack "m" "(La;)V" "n" methodFound <| by
    simp [passedOver, order_heirs, silentMethod, method, methods]
  cases spelling.symm.trans same
  refine ⟨forward, reverse, done, reversed, fieldBack "f" "g" fieldFound ?_, methodReturned⟩
  simp [passedOver, order_heirs, silentField, field, fields]

end Resolver

end JarRename
