import JarRename.Proofs.Descriptor
import JarRename.Proofs.Mapping.Table

/-!
**The reversed table is the inverse.**

A table is reversed entry by entry: from the new name to the old one, with owners and descriptors in the new spelling.
Whatever the order of the entries, the spelling is that of the whole table.

* `Table.Swapped`: the entries of a table from the new names to the old ones;
* `Table.ofReverse_eq`: reversing is building the table of the swapped entries;
* `Table.holds_ofReverse`, `Table.exists_ofReverse_iff`: what the reversed table holds, and when there is one;
* `Table.class?_ofReverse`, `Table.field?_ofReverse`, `Table.method?_ofReverse`: what it answers;
* `Table.reverse_inverse`: the reversed table as the inverse relation.
-/

namespace JarRename

open Mapping

namespace Table

variable {forward reverse : Table} {entries : List Numbered}

/-- The entries of a table from the new names to the old ones, with owners and descriptors in the new spelling. -/
inductive Swapped (forward : Table) : Entry → Prop
  | ofClass {old new : String} (found : forward.class? old = some new) : Swapped forward (.ofClass new old)
  | ofField {owner old new : String} (found : forward.field? owner old = some new) :
    Swapped forward (.ofField (forward.classOrKeep owner) new old)
  | ofMethod {owner old descriptor new spelled : String} (found : forward.method? owner old descriptor = some new)
    (renamed : forward.mapDescriptor descriptor = .ok spelled) :
    Swapped forward (.ofMethod (forward.classOrKeep owner) new spelled old)

/-! ### Swapping -/

/-- What is swapped is what the table holds. -/
theorem swapped_iff {swapped : Entry} :
    forward.Swapped swapped ↔ ∃ entry, forward.Holds entry ∧ forward.swap entry = .ok swapped := by
  constructor
  · rintro (@⟨old, new, found⟩ | @⟨owner, old, new, found⟩ | @⟨owner, old, descriptor, new, spelled, found, renamed⟩)
    · exact ⟨.ofClass old new, found, rfl⟩
    · exact ⟨.ofField owner old new, found, rfl⟩
    · exact ⟨.ofMethod owner old descriptor new, found, bind_eq_ok.mpr ⟨spelled, renamed, rfl⟩⟩
  · rintro ⟨entry, held, done⟩
    cases entry with
    | ofClass old new =>
      cases done
      exact .ofClass held
    | ofField owner old new =>
      cases done
      exact .ofField held
    | ofMethod owner old descriptor new =>
      obtain ⟨spelled, renamed, same⟩ := bind_eq_ok.mp done
      cases same
      exact .ofMethod held renamed

/-- An entry that can be read can be swapped. -/
theorem exists_swap {entry : Entry} (readable : entry.Readable) : ∃ swapped, forward.swap entry = .ok swapped := by
  cases entry with
  | ofClass old new => exact ⟨_, rfl⟩
  | ofField owner old new => exact ⟨_, rfl⟩
  | ofMethod owner old descriptor new =>
    obtain ⟨type, read⟩ := readable
    obtain ⟨spelled, renamed⟩ := Descriptor.exists_rename forward.class? read
    exact ⟨_, bind_eq_ok.mpr ⟨spelled, renamed, rfl⟩⟩

/-- A numbered entry swapped, with its number. -/
def swapNumbered (forward : Table) (numbered : Numbered) : Except Fault Numbered := do
  return (numbered.1, ← forward.swap numbered.2)

theorem swapNumbered_eq_ok {numbered swapped : Numbered} :
    forward.swapNumbered numbered = .ok swapped ↔
      swapped.1 = numbered.1 ∧ forward.swap numbered.2 = .ok swapped.2 := by
  rw [swapNumbered, bind_eq_ok]
  constructor
  · rintro ⟨entry, done, same⟩
    cases same
    exact ⟨rfl, done⟩
  · rintro ⟨line, done⟩
    exact ⟨swapped.2, done, pure_eq_ok.mpr (by rw [← line])⟩

/-- **Reversing is building the table of the swapped entries.** -/
theorem ofReverse_eq {others : List Numbered} (swapped : entries.mapM forward.swapNumbered = .ok others) :
    ofReverse forward entries = ofForward others := by
  have run (start : Table) :
      entries.foldlM (fun table numbered => forward.insertSwapped table numbered.1 numbered.2) start =
        start.insertAll others := by
    have each := mapM_eq_ok.mp swapped
    clear swapped
    induction each generalizing start with
    | nil => rfl
    | @cons numbered other entries others done _ ih =>
      obtain ⟨number, entry⟩ := numbered
      obtain ⟨line, swapped⟩ := other
      obtain ⟨rfl, done⟩ := swapNumbered_eq_ok.mp done
      have step : forward.insertSwapped start line entry = start.insert line swapped := by
        rw [insertSwapped, done]
        rfl
      simp only [insertAll, List.foldlM_cons, step]
      cases start.insert line swapped with
      | error cause => rfl
      | ok middle => exact ih middle
  exact run {}

/-- The entries of a table can be swapped, and become the swapped entries of the table. -/
theorem exists_swapped (done : ofForward entries = .ok forward) :
    ∃ others, entries.mapM forward.swapNumbered = .ok others ∧
      ∀ swapped, (∃ line, (line, swapped) ∈ others) ↔ forward.Swapped swapped := by
  obtain ⟨readable, -⟩ := exists_ofForward_iff.mp ⟨forward, done⟩
  have each (numbered : Numbered) (member : numbered ∈ entries) :
      ∃ swapped, forward.swapNumbered numbered = .ok swapped := by
    obtain ⟨entry, swaps⟩ := exists_swap (readable numbered member)
    exact ⟨(numbered.1, entry), swapNumbered_eq_ok.mpr ⟨rfl, swaps⟩⟩
  obtain ⟨others, all⟩ := exists_mapM each
  refine ⟨others, all, fun swapped => ?_⟩
  rw [swapped_iff]
  constructor
  · rintro ⟨line, member⟩
    obtain ⟨⟨number, entry⟩, inside, swaps⟩ := mem_of_mapM all member
    exact ⟨entry, (holds_ofForward done entry).mpr ⟨number, inside⟩, (swapNumbered_eq_ok.mp swaps).2⟩
  · rintro ⟨entry, held, swaps⟩
    obtain ⟨line, inside⟩ := (holds_ofForward done entry).mp held
    obtain ⟨⟨number, other⟩, member, again⟩ := mapM_of_mem all inside
    obtain ⟨-, same⟩ := swapNumbered_eq_ok.mp again
    cases swaps.symm.trans same
    exact ⟨number, member⟩

/-! ### The reversed table -/

/-- **The reversed table** holds the swapped entries and no others. -/
theorem holds_ofReverse (done : ofForward entries = .ok forward) (reversed : ofReverse forward entries = .ok reverse)
    (entry : Entry) : reverse.Holds entry ↔ forward.Swapped entry := by
  obtain ⟨others, swapped, members⟩ := exists_swapped done
  rw [ofReverse_eq swapped] at reversed
  rw [holds_ofForward reversed, members]

/-- **There is a reversed table** exactly if the swapped entries can be read and do not contradict each other. -/
theorem exists_ofReverse_iff (done : ofForward entries = .ok forward) :
    (∃ reverse, ofReverse forward entries = .ok reverse) ↔
      (∀ swapped, forward.Swapped swapped → swapped.Readable) ∧
        ∀ first second, forward.Swapped first → forward.Swapped second → first.key = second.key →
          first.new = second.new := by
  obtain ⟨others, swapped, members⟩ := exists_swapped done
  rw [ofReverse_eq swapped, exists_ofForward_iff]
  constructor
  · rintro ⟨readable, agree⟩
    refine ⟨fun entry inside => ?_, fun first second one two => ?_⟩
    · obtain ⟨line, member⟩ := (members entry).mpr inside
      exact readable _ member
    · obtain ⟨line, member⟩ := (members first).mpr one
      obtain ⟨number, other⟩ := (members second).mpr two
      exact agree _ member _ other
  · rintro ⟨readable, agree⟩
    refine ⟨fun numbered member => ?_, fun first one second two => ?_⟩
    · exact readable _ ((members _).mp ⟨numbered.1, member⟩)
    · exact agree _ _ ((members _).mp ⟨first.1, one⟩) ((members _).mp ⟨second.1, two⟩)

section Answers

variable (done : ofForward entries = .ok forward) (reversed : ofReverse forward entries = .ok reverse)
include done reversed

theorem class?_ofReverse (new old : String) : reverse.class? new = some old ↔ forward.class? old = some new := by
  refine (holds_ofReverse done reversed (.ofClass new old)).trans ⟨?_, .ofClass⟩
  intro swapped
  cases swapped with
  | ofClass found => exact found

theorem field?_ofReverse (owner new old : String) : reverse.field? owner new = some old ↔
    ∃ oldOwner, forward.field? oldOwner old = some new ∧ owner = forward.classOrKeep oldOwner := by
  refine (holds_ofReverse done reversed (.ofField owner new old)).trans ⟨?_, ?_⟩
  · intro swapped
    cases swapped with
    | ofField found => exact ⟨_, found, rfl⟩
  · rintro ⟨oldOwner, found, rfl⟩
    exact .ofField found

theorem method?_ofReverse (owner new descriptor old : String) : reverse.method? owner new descriptor = some old ↔
    ∃ oldOwner oldDescriptor, forward.method? oldOwner old oldDescriptor = some new ∧
      owner = forward.classOrKeep oldOwner ∧ forward.mapDescriptor oldDescriptor = .ok descriptor := by
  refine (holds_ofReverse done reversed (.ofMethod owner new descriptor old)).trans ⟨?_, ?_⟩
  · intro swapped
    cases swapped with
    | ofMethod found renamed => exact ⟨_, _, found, rfl, renamed⟩
  · rintro ⟨oldOwner, oldDescriptor, found, rfl, renamed⟩
    exact .ofMethod found renamed

end Answers

/-- **The reversed table is the inverse relation.** It answers with an old name exactly where the table answers with
the new one, for owners and descriptors in the new spelling. There is none exactly if two swapped entries have one key
and different names, or a descriptor in the new spelling cannot be read. -/
theorem reverse_inverse (done : ofEntries entries .forward = .ok forward) :
    (∀ reverse, ofEntries entries .reverse = .ok reverse →
      (∀ new old, reverse.class? new = some old ↔ forward.class? old = some new) ∧
      (∀ owner new old, reverse.field? owner new = some old ↔
        ∃ oldOwner, forward.field? oldOwner old = some new ∧ owner = forward.classOrKeep oldOwner) ∧
      ∀ owner new descriptor old, reverse.method? owner new descriptor = some old ↔
        ∃ oldOwner oldDescriptor, forward.method? oldOwner old oldDescriptor = some new ∧
          owner = forward.classOrKeep oldOwner ∧ forward.mapDescriptor oldDescriptor = .ok descriptor) ∧
    ((∃ error, ofEntries entries .reverse = .error error) ↔
      (∃ first second, forward.Swapped first ∧ forward.Swapped second ∧ first.key = second.key ∧
        first.new ≠ second.new) ∨
      ∃ swapped, forward.Swapped swapped ∧ ¬swapped.Readable) := by
  rw [ofEntries_forward] at done
  rw [ofEntries_reverse done]
  constructor
  · intro reverse reversed
    exact ⟨class?_ofReverse done reversed, field?_ofReverse done reversed, method?_ofReverse done reversed⟩
  · rw [eq_error_iff, exists_ofReverse_iff done, not_and_or, or_comm]
    refine or_congr ?_ ?_
    · simp only [not_forall, exists_prop]
    · simp only [not_forall, exists_prop]

/-! ### Two classes that exchange their names -/

/-- Two classes that exchange their names. Their members come first, one owner has no entry of its own, and an entry is
repeated. -/
def exchange : List Numbered :=
  [(1, .ofMethod "a" "m" "(La;)V" "n"), (2, .ofField "x" "f" "g"), (3, .ofClass "a" "b"), (4, .ofClass "b" "a"),
    (5, .ofClass "a" "b")]

/-- The exchange the other way round. -/
def exchangeBack : List Entry :=
  [.ofMethod "b" "n" "(Lb;)V" "m", .ofField "x" "g" "f", .ofClass "b" "a", .ofClass "a" "b"]

/-- The descriptor of a method with one parameter, a class, and no result is read. -/
theorem parse_consumer {descriptor : String} (name : String) (named : IsClassName name)
    (text : descriptor = MethodType.toText ⟨[.object name], .base .void⟩) :
    MethodType.parse descriptor = .ok ⟨[.object name], .base .void⟩ := by
  refine MethodType.parse_eq_ok.mpr ⟨⟨?_, ?_⟩, text⟩
  · simpa [FieldType.WellNamed] using named
  · trivial

theorem exists_exchange : ∃ forward, ofForward exchange = .ok forward :=
  exists_ofForward_iff.mpr (by decide +kernel)

/-- The classes that the exchange renames. -/
theorem class?_exchange (done : ofForward exchange = .ok forward) (name : String) :
    forward.class? name = if name = "a" then some "b" else if name = "b" then some "a" else none := by
  refine Option.ext fun new => (holds_ofForward done (.ofClass name new)).trans ?_
  simp only [exchange, List.mem_cons, Prod.mk.injEq, List.not_mem_nil, or_false, reduceCtorEq, and_false, false_or,
    Entry.ofClass.injEq, exists_or, exists_and_right, exists_eq, true_and]
  split_ifs <;> simp_all [eq_comm]

/-- The classes and the descriptor of the exchange in the new spelling. -/
theorem spelling_exchange (done : ofForward exchange = .ok forward) :
    forward.classOrKeep "a" = "b" ∧ forward.classOrKeep "x" = "x" ∧
      forward.mapDescriptor "(La;)V" = .ok "(Lb;)V" := by
  rw [classOrKeep, classOrKeep, mapDescriptor, class?_ofForward done]
  decide +kernel

theorem swapped_exchange (done : ofForward exchange = .ok forward) {swapped : Entry}
    (inside : forward.Swapped swapped) : swapped ∈ exchangeBack := by
  obtain ⟨renamed, kept, spelled⟩ := spelling_exchange done
  obtain ⟨entry, held, swaps⟩ := swapped_iff.mp inside
  obtain ⟨line, member⟩ := (holds_ofForward done entry).mp held
  simp only [exchange, List.mem_cons, Prod.mk.injEq, List.not_mem_nil, or_false] at member
  obtain ⟨-, rfl⟩ | ⟨-, rfl⟩ | ⟨-, rfl⟩ | ⟨-, rfl⟩ | ⟨-, rfl⟩ := member
  all_goals
    simp only [swap, renamed, kept, spelled] at swaps
    cases swaps
    simp [exchangeBack]

theorem exists_exchangeBack (done : ofForward exchange = .ok forward) :
    ∃ reverse, ofReverse forward exchange = .ok reverse := by
  have readable : ∀ entry ∈ exchangeBack, entry.Readable := by decide +kernel
  have agree : ∀ first ∈ exchangeBack, ∀ second ∈ exchangeBack, first.key = second.key → first.new = second.new := by
    decide +kernel
  refine (exists_ofReverse_iff done).mpr ⟨fun swapped inside => ?_, fun first second one two => ?_⟩
  · exact readable swapped (swapped_exchange done inside)
  · exact agree first (swapped_exchange done one) second (swapped_exchange done two)

theorem reverse_inverse_exchange : ∃ forward reverse, ofEntries exchange .forward = .ok forward ∧
    ofEntries exchange .reverse = .ok reverse ∧ reverse.class? "a" = some "b" ∧ reverse.field? "x" "g" = some "f" ∧
    reverse.method? "b" "n" "(Lb;)V" = some "m" := by
  obtain ⟨forward, done⟩ := exists_exchange
  obtain ⟨renamed, kept, spelled⟩ := spelling_exchange done
  have holds := holds_ofForward done
  obtain ⟨reverse, reversed⟩ := exists_exchangeBack done
  rw [← ofEntries_reverse done] at reversed
  rw [← ofEntries_forward] at done
  obtain ⟨inverse, -⟩ := reverse_inverse done
  obtain ⟨classes, fields, methods⟩ := inverse reverse reversed
  refine ⟨forward, reverse, done, reversed, ?_, ?_, ?_⟩
  · exact (classes "a" "b").mpr ((holds (.ofClass "b" "a")).mpr ⟨4, by simp [exchange]⟩)
  · exact (fields "x" "g" "f").mpr ⟨"x", (holds (.ofField "x" "f" "g")).mpr ⟨2, by simp [exchange]⟩, kept.symm⟩
  · exact (methods "b" "n" "(Lb;)V" "m").mpr
      ⟨"a", "(La;)V", (holds (.ofMethod "a" "m" "(La;)V" "n")).mpr ⟨1, by simp [exchange]⟩, renamed.symm, spelled⟩

end Table

end JarRename
