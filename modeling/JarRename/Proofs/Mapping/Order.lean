import JarRename.Proofs.Mapping.Insertion
import JarRename.Proofs.Mapping.Reverse

/-!
**The order of entries does not matter.**

A table holds its entries and nothing else, so entries in another order have the same table. The reversed table is
spelled with the whole forward table, and does not depend on the order either.

* `Table.Alike`: tables that answer alike, and everything that follows from their answers;
* `Table.alike_of_holds`: tables that hold the same entries;
* `Table.SameEntries`: lists of the same entries, in whatever order and lines;
* `Table.SameEntries.alike_ofForward`, `Table.SameEntries.alike_ofReverse`: the tables of such lists;
* `Table.ofEntries_perm`: entries in another order.
-/

namespace JarRename

open Mapping

/-- The entry of a key with a new name. -/
def Mapping.Key.renamed : Key → String → Entry
  | ofClass name, new => .ofClass name new
  | ofField owner name, new => .ofField owner name new
  | ofMethod owner name descriptor, new => .ofMethod owner name descriptor new

namespace Table

variable {first second : Table}

/-! ### Tables that answer alike -/

/-- The tables have the same answers. -/
def Alike (first second : Table) : Prop :=
  ∀ key, first.get? key = second.get? key

/-- Tables that hold the same entries answer alike. -/
theorem alike_of_holds (same : ∀ entry, first.Holds entry ↔ second.Holds entry) : first.Alike second := by
  intro key
  ext new
  have holds := same (key.renamed new)
  cases key <;> exact holds

namespace Alike

theorem symm (alike : first.Alike second) : second.Alike first := fun key =>
  (alike key).symm

theorem class?_eq (alike : first.Alike second) : first.class? = second.class? := by
  funext name
  exact alike (.ofClass name)

theorem classOrKeep_eq (alike : first.Alike second) : first.classOrKeep = second.classOrKeep := by
  funext name
  rw [classOrKeep, classOrKeep, alike.class?_eq]

theorem mapDescriptor_eq (alike : first.Alike second) : first.mapDescriptor = second.mapDescriptor := by
  funext descriptor
  rw [mapDescriptor, mapDescriptor, alike.class?_eq]

/-- Tables that answer alike hold as many keys. -/
theorem count_eq (alike : first.Alike second) (subject : Subject) : first.count subject = second.count subject := by
  cases subject with
  | ofClass =>
    refine (Std.HashMap.Equiv.of_forall_getElem?_eq fun name => ?_).size_eq
    exact alike (.ofClass name)
  | ofField =>
    refine (Std.HashMap.Equiv.of_forall_getElem?_eq fun key => ?_).size_eq
    exact alike (.ofField key.owner key.name)
  | ofMethod =>
    refine (Std.HashMap.Equiv.of_forall_getElem?_eq fun key => ?_).size_eq
    exact alike (.ofMethod key.owner key.name key.descriptor)

/-- Tables that answer alike are swapped alike. -/
theorem swapped (alike : first.Alike second) {entry : Entry} (inside : first.Swapped entry) : second.Swapped entry := by
  cases inside with
  | ofClass found => exact .ofClass ((alike (.ofClass _)).symm.trans found)
  | ofField found =>
    rw [alike.classOrKeep_eq]
    exact .ofField ((alike (.ofField _ _)).symm.trans found)
  | ofMethod found renamed =>
    rw [alike.classOrKeep_eq]
    rw [alike.mapDescriptor_eq] at renamed
    exact .ofMethod ((alike (.ofMethod _ _ _)).symm.trans found) renamed

theorem swapped_iff (alike : first.Alike second) (entry : Entry) : first.Swapped entry ↔ second.Swapped entry :=
  ⟨alike.swapped, alike.symm.swapped⟩

end Alike

/-! ### Lists of the same entries -/

/-- The lists have the same entries, in whatever order, lines and number. -/
def SameEntries (entries others : List Numbered) : Prop :=
  ∀ entry, (∃ line, (line, entry) ∈ entries) ↔ ∃ line, (line, entry) ∈ others

/-- Entries in another order are the same entries. -/
theorem sameEntries_of_perm {entries others : List Numbered}
    (permuted : (entries.map Prod.snd).Perm (others.map Prod.snd)) : SameEntries entries others := by
  intro entry
  simpa using permuted.mem_iff (a := entry)

namespace SameEntries

variable {entries others : List Numbered}

theorem symm (same : SameEntries entries others) : SameEntries others entries := fun entry =>
  (same entry).symm

/-- What holds of the entries of one list holds of those of the other. -/
theorem forall_mem (same : SameEntries entries others) (holds : Entry → Prop)
    (each : ∀ numbered ∈ entries, holds numbered.2) : ∀ numbered ∈ others, holds numbered.2 := by
  intro numbered member
  obtain ⟨line, inside⟩ := (same numbered.2).mpr ⟨numbered.1, member⟩
  exact each (line, numbered.2) inside

/-- The same entries have a table in any order. -/
theorem exists_ofForward (same : SameEntries entries others) (done : ∃ table, ofForward entries = .ok table) :
    ∃ table, ofForward others = .ok table := by
  obtain ⟨readable, agree⟩ := exists_ofForward_iff.mp done
  refine exists_ofForward_iff.mpr ⟨same.forall_mem Entry.Readable readable, ?_⟩
  let agrees (one two : Entry) : Prop := one.key = two.key → one.new = two.new
  refine same.forall_mem (fun one => ∀ numbered ∈ others, agrees one numbered.2) fun one inside => ?_
  exact same.forall_mem (agrees one.2) (agree one inside)

/-- **The same entries** have tables that answer alike. -/
theorem alike_ofForward (same : SameEntries entries others) (done : ofForward entries = .ok first)
    (doneToo : ofForward others = .ok second) : first.Alike second := by
  refine alike_of_holds fun entry => ?_
  rw [holds_ofForward done, holds_ofForward doneToo]
  exact same entry

/-- The same entries have a reversed table in any order. -/
theorem exists_ofReverse (same : SameEntries entries others) (done : ofForward entries = .ok first)
    (doneToo : ofForward others = .ok second) (reversed : ∃ table, ofReverse first entries = .ok table) :
    ∃ table, ofReverse second others = .ok table := by
  have alike := same.alike_ofForward done doneToo
  rw [exists_ofReverse_iff done] at reversed
  rw [exists_ofReverse_iff doneToo]
  simpa only [alike.swapped_iff] using reversed

/-- **The same entries** have reversed tables that answer alike. -/
theorem alike_ofReverse (same : SameEntries entries others) (done : ofForward entries = .ok first)
    (doneToo : ofForward others = .ok second) {back backToo : Table} (reversed : ofReverse first entries = .ok back)
    (reversedToo : ofReverse second others = .ok backToo) : back.Alike backToo := by
  refine alike_of_holds fun entry => ?_
  rw [holds_ofReverse done reversed, holds_ofReverse doneToo reversedToo]
  exact (same.alike_ofForward done doneToo).swapped_iff entry

/-- The same entries have a table in any order, in both directions. -/
theorem exists_ofEntries (same : SameEntries entries others) {direction : Direction}
    (done : ∃ table, ofEntries entries direction = .ok table) : ∃ table, ofEntries others direction = .ok table := by
  obtain ⟨table, done⟩ := done
  obtain ⟨forward, loaded, -⟩ := bind_eq_ok.mp done
  obtain ⟨forwardToo, loadedToo⟩ := same.exists_ofForward ⟨forward, loaded⟩
  cases direction with
  | forward => exact ⟨forwardToo, by rw [ofEntries_forward, loadedToo]⟩
  | reverse =>
    rw [ofEntries_reverse loaded] at done
    rw [ofEntries_reverse loadedToo]
    exact same.exists_ofReverse loaded loadedToo ⟨table, done⟩

/-- **The same entries** have tables that answer alike, in both directions. -/
theorem alike_ofEntries (same : SameEntries entries others) {direction : Direction}
    (done : ofEntries entries direction = .ok first) (doneToo : ofEntries others direction = .ok second) :
    first.Alike second := by
  obtain ⟨forward, loaded, -⟩ := bind_eq_ok.mp done
  obtain ⟨forwardToo, loadedToo, -⟩ := bind_eq_ok.mp doneToo
  cases direction with
  | forward =>
    rw [ofEntries_forward] at done doneToo
    exact same.alike_ofForward done doneToo
  | reverse =>
    rw [ofEntries_reverse loaded] at done
    rw [ofEntries_reverse loadedToo] at doneToo
    exact same.alike_ofReverse loaded loadedToo done doneToo

end SameEntries

/-- **Entries in another order** have the same table. In either direction there is one for both orders or for neither,
and the two answer every question alike and have as many keys of each sort. The lines of the entries do not matter. -/
theorem ofEntries_perm {entries others : List Numbered}
    (permuted : (entries.map Prod.snd).Perm (others.map Prod.snd)) (direction : Direction) :
    ((∃ table, ofEntries entries direction = .ok table) ↔ ∃ table, ofEntries others direction = .ok table) ∧
      ∀ first second, ofEntries entries direction = .ok first → ofEntries others direction = .ok second →
        (∀ name, first.class? name = second.class? name) ∧
        (∀ owner name, first.field? owner name = second.field? owner name) ∧
        (∀ owner name descriptor, first.method? owner name descriptor = second.method? owner name descriptor) ∧
        (∀ descriptor, first.mapDescriptor descriptor = second.mapDescriptor descriptor) ∧
        ∀ subject, first.count subject = second.count subject := by
  have same := sameEntries_of_perm permuted
  refine ⟨⟨same.exists_ofEntries, same.symm.exists_ofEntries⟩, fun first second done doneToo => ?_⟩
  have alike := same.alike_ofEntries done doneToo
  refine ⟨fun name => alike (.ofClass name), fun owner name => alike (.ofField owner name), ?_, ?_, alike.count_eq⟩
  · exact fun owner name descriptor => alike (.ofMethod owner name descriptor)
  · exact fun descriptor => by rw [alike.mapDescriptor_eq]

theorem ofEntries_perm_exchange : (exchange.map Prod.snd).Perm (exchange.reverse.map Prod.snd) ∧
    ∃ first second, ofEntries exchange .reverse = .ok first ∧ ofEntries exchange.reverse .reverse = .ok second ∧
      first.method? "b" "n" "(Lb;)V" = some "m" ∧ second.method? "b" "n" "(Lb;)V" = some "m" := by
  have permuted : (exchange.map Prod.snd).Perm (exchange.reverse.map Prod.snd) :=
    (List.reverse_perm exchange).symm.map Prod.snd
  obtain ⟨forward, done⟩ := exists_exchange
  obtain ⟨renamed, -, spelled⟩ := spelling_exchange done
  obtain ⟨first, reversed⟩ := exists_exchangeBack done
  have answered : first.method? "b" "n" "(Lb;)V" = some "m" := by
    refine (method?_ofReverse done reversed "b" "n" "(Lb;)V" "m").mpr ⟨"a", "(La;)V", ?_, renamed.symm, spelled⟩
    exact (holds_ofForward done (.ofMethod "a" "m" "(La;)V" "n")).mpr ⟨1, by simp [exchange]⟩
  rw [← ofEntries_reverse done] at reversed
  obtain ⟨both, alike⟩ := ofEntries_perm permuted .reverse
  obtain ⟨second, reversedToo⟩ := both.mp ⟨first, reversed⟩
  obtain ⟨-, -, methods, -⟩ := alike first second reversed reversedToo
  exact ⟨permuted, first, second, reversed, reversedToo, answered, (methods _ _ _).symm.trans answered⟩

end Table

end JarRename
