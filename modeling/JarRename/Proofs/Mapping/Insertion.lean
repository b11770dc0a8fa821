import JarRename.Proofs.Mapping.Table
import Mathlib.Data.Finset.Card
import Mathlib.Data.Finset.Dedup
import Mathlib.Data.Finset.Filter

/-!
**Entries offered one after another.**

Entries are offered to a table in any order, and some of them are refused. A key that has a new name keeps it whatever is
offered later, and a refused entry leaves nothing behind.

* `Key.subject`, `Table.count`: how many keys of each sort a table holds;
* `Table.store`, `Table.store_eq`: an entry put into the table in place, which comes to the same as `Table.insert`;
* `Table.insert_eq_error`: the entries that are refused;
* `Intake`, `Intake.Faithful`: a table with the entries it has taken, and what it holds of them;
* `Intake.Faithful.offer`, `Intake.faithful_offerAll`: one entry offered, and then a list of them;
* `Intake.first_kept`: what a table holds after any entries were offered to it.
-/

namespace JarRename

open Mapping

/-! ### Counting -/

namespace Mapping

/-- The sort of what is renamed. -/
def Key.subject : Key → Subject
  | ofClass _ => .ofClass
  | ofField _ _ => .ofField
  | ofMethod _ _ _ => .ofMethod

end Mapping

namespace Table

/-- How many keys of a sort the table holds. -/
def count (table : Table) : Subject → Nat
  | .ofClass => table.classes.size
  | .ofField => table.fields.size
  | .ofMethod => table.methods.size

theorem count_empty (subject : Subject) : ({} : Table).count subject = 0 := by
  cases subject <;> simp [count]

/-- An entry adds to the count of its sort, if its key is new. -/
theorem count_put (table : Table) (entry : Entry) (subject : Subject) :
    (table.put entry).count subject =
      if table.get? entry.key = none ∧ entry.key.subject = subject then table.count subject + 1
      else table.count subject := by
  cases entry <;> cases subject <;>
    simp [put, count, get?, Entry.key, Key.subject, class?, field?, method?, Std.HashMap.size_insert]

/-! ### An entry put in place -/

/-- A change of a table in place. What it has changed before it fails stays changed. -/
abbrev Edit (α : Type) := EStateM MappingError Table α

/-- A check for the entry in a line. -/
def verify {α : Type} (line : Nat) (outcome : Except MappingCause α) : Edit α := fun table =>
  match outcome with
  | .ok value => .ok value table
  | .error cause => .error { line, cause } table

/-- An entry put into the table in place: what there is to check, and then the change. -/
def store (line : Nat) : Entry → Edit Unit
  | .ofClass old new => do
    verify line (checkFree .ofClass old ((← get).class? old) new)
    modify fun table => { table with classes := table.classes.insert old new }
  | .ofField owner old new => do
    verify line (checkFree .ofField (owner ++ "." ++ old) ((← get).field? owner old) new)
    modify fun table => { table with fields := table.fields.insert { owner, name := old } new }
  | .ofMethod owner old descriptor new => do
    let _ ← verify line ((MethodType.parse descriptor).mapError .badDescriptor)
    verify line (checkFree .ofMethod (owner ++ "." ++ old ++ descriptor) ((← get).method? owner old descriptor) new)
    modify fun table => { table with methods := table.methods.insert { owner, name := old, descriptor } new }

/-- A check in place goes on exactly if it succeeds, with the table as it was. -/
theorem verify_bind {α : Type} (line : Nat) (outcome : Except MappingCause α) (next : α → Edit Unit) (table : Table) :
    (verify line outcome >>= next) table =
      match outcome with
      | .ok value => next value table
      | .error cause => .error { line, cause } table := by
  cases outcome <;> rfl

/-- **An entry put in place** comes to the same as the table with the entry, and a refused one leaves the table as it
was. -/
theorem store_eq (line : Nat) (entry : Entry) (table : Table) :
    store line entry table =
      match table.insert line entry with
      | .ok after => .ok () after
      | .error error => .error error table := by
  cases entry with
  | ofClass old new =>
    show (verify line (checkFree .ofClass old (table.class? old) new) >>= _) table = _
    rw [verify_bind, insert, add]
    cases checkFree .ofClass old (table.class? old) new <;> rfl
  | ofField owner old new =>
    show (verify line (checkFree .ofField (owner ++ "." ++ old) (table.field? owner old) new) >>= _) table = _
    rw [verify_bind, insert, add]
    cases checkFree .ofField (owner ++ "." ++ old) (table.field? owner old) new <;> rfl
  | ofMethod owner old descriptor new =>
    rw [store, verify_bind, insert, add]
    cases (MethodType.parse descriptor).mapError MappingCause.badDescriptor with
    | error cause => rfl
    | ok type =>
      show (verify line (checkFree .ofMethod (owner ++ "." ++ old ++ descriptor) (table.method? owner old descriptor)
        new) >>= _) table = _
      rw [verify_bind, ok_bind]
      cases checkFree .ofMethod (owner ++ "." ++ old ++ descriptor) (table.method? owner old descriptor) new <;> rfl

section Outcomes

variable {table after : Table} {line : Nat} {entry : Entry} {error : MappingError}

theorem store_eq_ok : store line entry table = .ok () after ↔ table.insert line entry = .ok after := by
  rw [store_eq]
  cases table.insert line entry <;> simp

theorem store_eq_error :
    store line entry table = .error error after ↔ table.insert line entry = .error error ∧ after = table := by
  rw [store_eq]
  cases table.insert line entry <;> simp [eq_comm]

/-- **An entry is refused** exactly if its key has another new name already, or its descriptor cannot be read. -/
theorem insert_eq_error : (∃ error, table.insert line entry = .error error) ↔
    (∃ found, table.get? entry.key = some found ∧ found ≠ entry.new) ∨ ¬entry.Readable := by
  rw [eq_error_iff]
  simp only [insert_eq_ok, exists_and_left, exists_eq', and_true]
  rw [not_and_or, or_comm]
  simp only [not_forall, exists_prop]

end Outcomes

end Table

/-! ### What is offered -/

/-- A table, and the entries that it has taken in their order. -/
structure Intake where
  table : Table := {}
  taken : List Entry := []

namespace Intake

variable {intake : Intake}

/-- One entry is offered. -/
def offer (intake : Intake) (numbered : Numbered) : Intake :=
  match Table.store numbered.1 numbered.2 intake.table with
  | .ok _ table => { table, taken := intake.taken ++ [numbered.2] }
  | .error _ table => { intake with table }

/-- Entries are offered one after another to a table that is empty at first. -/
def offerAll (entries : List Numbered) : Intake :=
  entries.foldl offer {}

/-- The keys of the entries that were taken. -/
def keys (intake : Intake) : Finset Key :=
  (intake.taken.map Entry.key).toFinset

/-- The table answers each key with the first new name that it took for it, and counts each key once. -/
structure Faithful (intake : Intake) : Prop where
  answers : ∀ key, intake.table.get? key = (intake.taken.find? fun entry => entry.key = key).map Entry.new
  counts : ∀ subject, intake.table.count subject = (intake.keys.filter fun key => key.subject = subject).card

theorem faithful_empty : Faithful {} where
  answers key := Table.get?_empty key
  counts subject := Table.count_empty subject

/-- A key that is not answered is that of no entry that was taken. -/
theorem Faithful.get?_eq_none (faithful : intake.Faithful) (key : Key) :
    intake.table.get? key = none ↔ key ∉ intake.keys := by
  rw [faithful.answers, Option.map_eq_none_iff, List.find?_eq_none, keys]
  simp

/-- An entry that is taken. -/
theorem Faithful.put (faithful : intake.Faithful) {entry : Entry}
    (free : ∀ found, intake.table.get? entry.key = some found → found = entry.new) :
    Faithful { table := intake.table.put entry, taken := intake.taken ++ [entry] } where
  answers key := by
    rw [Table.get?_put, List.find?_append, faithful.answers]
    rw [faithful.answers] at free
    by_cases same : entry.key = key
    · subst same
      cases first : intake.taken.find? fun other => other.key = entry.key with
      | none => simp
      | some other =>
        -- the key keeps its first name, which is the one that is repeated
        rw [first] at free
        simp [free other.new rfl]
    · simp [same]
  counts subject := by
    have more : ({ table := intake.table.put entry, taken := intake.taken ++ [entry] } : Intake).keys =
        insert entry.key intake.keys := by
      unfold keys
      ext key
      simp
    simp only [Table.count_put, more, Finset.filter_insert, faithful.counts, faithful.get?_eq_none]
    by_cases fits : entry.key.subject = subject
    · by_cases known : entry.key ∈ intake.keys
      · have inside : entry.key ∈ intake.keys.filter fun key => key.subject = subject := by simp [known, fits]
        simp [known, fits, Finset.insert_eq_of_mem inside]
      · have outside : entry.key ∉ intake.keys.filter fun key => key.subject = subject := by simp [known]
        simp [known, fits, Finset.card_insert_of_notMem outside]
    · simp [fits]

/-- **One entry offered.** -/
theorem Faithful.offer (faithful : intake.Faithful) (numbered : Numbered) : (intake.offer numbered).Faithful := by
  unfold Intake.offer
  cases done : Table.store numbered.1 numbered.2 intake.table with
  | ok value after =>
    obtain ⟨-, free, rfl⟩ := Table.insert_eq_ok.mp (Table.store_eq_ok.mp done)
    exact faithful.put free
  | error error after =>
    obtain ⟨-, rfl⟩ := Table.store_eq_error.mp done
    exact faithful

/-- **Any entries offered**, by induction over them. -/
theorem faithful_offerAll (entries : List Numbered) : (offerAll entries).Faithful := by
  have run (entries : List Numbered) {intake : Intake} (faithful : intake.Faithful) :
      (entries.foldl Intake.offer intake).Faithful := by
    induction entries generalizing intake with
    | nil => exact faithful
    | cons numbered entries ih => exact ih (faithful.offer numbered)
  exact run entries faithful_empty

/-- **The first name is kept.** Whatever was offered, the table answers each key with the new name of the first entry
that it took for this key, and holds as many keys of each sort as there are among those entries. The next entry is
refused exactly if its key has another name or its descriptor cannot be read, and then the table stays as it is. -/
theorem first_kept (entries : List Numbered) :
    let intake := offerAll entries
    (∀ key, intake.table.get? key = (intake.taken.find? fun entry => entry.key = key).map Entry.new) ∧
      (∀ subject, intake.table.count subject =
        ((intake.taken.map Entry.key).toFinset.filter fun key => key.subject = subject).card) ∧
      (∀ line entry, (∃ error, intake.table.insert line entry = .error error) ↔
        (∃ found, intake.table.get? entry.key = some found ∧ found ≠ entry.new) ∨ ¬entry.Readable) ∧
      (∀ line entry error after, Table.store line entry intake.table = .error error after ↔
        intake.table.insert line entry = .error error ∧ after = intake.table) ∧
      ∀ line entry after, Table.store line entry intake.table = .ok () after ↔
        intake.table.insert line entry = .ok after := by
  intro intake
  have faithful := faithful_offerAll entries
  refine ⟨faithful.answers, faithful.counts, fun line entry => Table.insert_eq_error, ?_, ?_⟩
  · exact fun line entry error after => Table.store_eq_error
  · exact fun line entry after => Table.store_eq_ok

end Intake

end JarRename
