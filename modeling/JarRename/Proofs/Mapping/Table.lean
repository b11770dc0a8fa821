import JarRename.Mapping.Table
import JarRename.Proofs.Outcome

/-!
**What a table holds.**

A table is built entry by entry. It holds the entries that it is built from and no others, and building it fails
exactly where two entries contradict each other or the descriptor of a method cannot be read.

* `Mapping.Key`, `Table.get?`, `Table.Holds`: entries as keys with new names, and the table as the set of its entries;
* `Table.add_eq_ok`: a table with one entry more;
* `Table.Admits`, `Table.exists_insertAll_iff`, `Table.holds_of_insertAll`: a table with a list of entries more, by
  induction over the list;
* `Table.exists_ofForward_iff`, `Table.holds_ofForward`, `Table.get?_ofForward`: the table of a list of entries.
-/

namespace JarRename

open Mapping

/-! ### Entries as keys with new names -/

namespace Mapping

/-- What an entry renames. -/
inductive Key where
  | ofClass (name : String)
  | ofField (owner name : String)
  | ofMethod (owner name descriptor : String)
  deriving DecidableEq

namespace Entry

/-- What the entry renames. -/
def key : Entry → Key
  | ofClass old _ => .ofClass old
  | ofField owner old _ => .ofField owner old
  | ofMethod owner old descriptor _ => .ofMethod owner old descriptor

/-- The new name in the entry. -/
def new : Entry → String
  | ofClass _ new | ofField _ _ new | ofMethod _ _ _ new => new

/-- The descriptor of the entry can be read, if it is that of a method. -/
def Readable : Entry → Prop
  | ofClass _ _ | ofField _ _ _ => True
  | ofMethod _ _ descriptor _ => ∃ type, MethodType.parse descriptor = .ok type

instance : DecidablePred Readable
  | ofClass _ _ | ofField _ _ _ => isTrue trivial
  | ofMethod _ _ descriptor _ =>
    match read : MethodType.parse descriptor with
    | .ok type => isTrue ⟨type, read⟩
    | .error _ => isFalse fun ⟨_, readable⟩ => nomatch read.symm.trans readable

/-- An entry is its key and its new name. -/
theorem eq_of_key_new {first second : Entry} (sameKey : first.key = second.key)
    (sameNew : first.new = second.new) : first = second := by
  cases first <;> cases second <;> simp_all [key, new]

end Entry

end Mapping

namespace Table

variable {table start after : Table} {entry : Entry} {entries : List Numbered}

/-- The new name for a key. -/
def get? (table : Table) : Key → Option String
  | .ofClass name => table.class? name
  | .ofField owner name => table.field? owner name
  | .ofMethod owner name descriptor => table.method? owner name descriptor

/-- The table answers the key of the entry with its new name. -/
def Holds (table : Table) (entry : Entry) : Prop :=
  table.get? entry.key = some entry.new

theorem get?_empty (key : Key) : ({} : Table).get? key = none := by
  cases key <;> simp [get?, class?, field?, method?]

/-! ### One entry more -/

/-- The table with the entry in place of what it held for the same key. -/
def put (table : Table) : Entry → Table
  | .ofClass old new => { table with classes := table.classes.insert old new }
  | .ofField owner old new => { table with fields := table.fields.insert { owner, name := old } new }
  | .ofMethod owner old descriptor new =>
    { table with methods := table.methods.insert { owner, name := old, descriptor } new }

/-- A table with one entry more answers its key with its new name and every other key as before. -/
theorem get?_put (table : Table) (entry : Entry) (key : Key) :
    (table.put entry).get? key = if entry.key = key then some entry.new else table.get? key := by
  cases entry <;> cases key <;>
    simp [put, get?, Entry.key, Entry.new, class?, field?, method?, Std.HashMap.getElem?_insert]

theorem checkFree_eq_ok {subject : Subject} {text : String} {existing : Option String} {new : String} :
    checkFree subject text existing new = .ok () ↔ ∀ found, existing = some found → found = new := by
  cases existing with
  | none => simp [checkFree]
  | some found =>
    by_cases same : found = new <;> simp [checkFree, same]

/-- **One entry more.** It is added if it can be read and contradicts nothing. -/
theorem add_eq_ok : table.add entry = .ok after ↔
    entry.Readable ∧ (∀ found, table.get? entry.key = some found → found = entry.new) ∧
      table.put entry = after := by
  have free (subject : Subject) (text : String) (existing : Option String) (new : String) (result : Table) :
      (checkFree subject text existing new >>= fun _ => pure result) = .ok after ↔
        (∀ found, existing = some found → found = new) ∧ result = after := by
    rw [bind_eq_ok]
    constructor
    · rintro ⟨⟨⟩, checked, same⟩
      exact ⟨checkFree_eq_ok.mp checked, pure_eq_ok.mp same⟩
    · rintro ⟨agrees, same⟩
      exact ⟨(), checkFree_eq_ok.mpr agrees, pure_eq_ok.mpr same⟩
  cases entry with
  | ofClass old new =>
    rw [add, free]
    exact (iff_of_eq (true_and _)).symm
  | ofField owner old new =>
    rw [add, free]
    exact (iff_of_eq (true_and _)).symm
  | ofMethod owner old descriptor new =>
    rw [add, bind_eq_ok]
    constructor
    · rintro ⟨type, read, done⟩
      exact ⟨⟨type, mapError_eq_ok.mp read⟩, (free _ _ _ _ _).mp done⟩
    · rintro ⟨⟨type, read⟩, done⟩
      exact ⟨type, mapError_eq_ok.mpr read, (free _ _ _ _ _).mpr done⟩

theorem insert_eq_ok {line : Nat} : table.insert line entry = .ok after ↔
    entry.Readable ∧ (∀ found, table.get? entry.key = some found → found = entry.new) ∧
      table.put entry = after := by
  rw [insert, mapError_eq_ok, add_eq_ok]

/-! ### A list of entries more -/

/-- The table with a list of entries more. -/
def insertAll (table : Table) (entries : List Numbered) : Except MappingError Table :=
  entries.foldlM (fun table (line, entry) => table.insert line entry) table

theorem insertAll_cons {numbered : Numbered} :
    start.insertAll (numbered :: entries) = .ok after ↔
      ∃ middle, start.insert numbered.1 numbered.2 = .ok middle ∧ middle.insertAll entries = .ok after := by
  rw [insertAll, List.foldlM_cons, bind_eq_ok]
  rfl

/-- The entries can be read, and contradict neither the table nor each other. -/
structure Admits (table : Table) (entries : List Numbered) : Prop where
  readable : ∀ numbered ∈ entries, numbered.2.Readable
  free : ∀ numbered ∈ entries, ∀ found, table.get? numbered.2.key = some found → found = numbered.2.new
  agree : ∀ first ∈ entries, ∀ second ∈ entries, first.2.key = second.2.key → first.2.new = second.2.new

/-- The entries that a table admits are the first one, and what the table with it admits. -/
theorem admits_cons {numbered : Numbered} : table.Admits (numbered :: entries) ↔
    numbered.2.Readable ∧ (∀ found, table.get? numbered.2.key = some found → found = numbered.2.new) ∧
      (table.put numbered.2).Admits entries := by
  constructor
  · intro admits
    refine ⟨admits.readable _ List.mem_cons_self, admits.free _ List.mem_cons_self, ?_, ?_, ?_⟩
    · exact fun other member => admits.readable other (List.mem_cons_of_mem _ member)
    · intro other member found answered
      rw [get?_put] at answered
      split_ifs at answered with same
      · rw [← Option.some.inj answered]
        exact admits.agree _ List.mem_cons_self other (List.mem_cons_of_mem _ member) same
      · exact admits.free other (List.mem_cons_of_mem _ member) found answered
    · exact fun first one second two =>
        admits.agree first (List.mem_cons_of_mem _ one) second (List.mem_cons_of_mem _ two)
  · rintro ⟨readable, free, rest⟩
    -- what the table with the first entry admits agrees with that entry
    have agree (other : Numbered) (member : other ∈ entries) (same : numbered.2.key = other.2.key) :
        numbered.2.new = other.2.new := by
      refine rest.free other member _ ?_
      rw [get?_put, if_pos same]
    refine ⟨List.forall_mem_cons.mpr ⟨readable, rest.readable⟩, List.forall_mem_cons.mpr ⟨free, ?_⟩, ?_⟩
    · intro other member found answered
      by_cases same : numbered.2.key = other.2.key
      · rw [← same] at answered
        rw [free found answered, agree other member same]
      · refine rest.free other member found ?_
        rw [get?_put, if_neg same, answered]
    · intro first one second two same
      rcases List.mem_cons.mp one with rfl | inside <;> rcases List.mem_cons.mp two with rfl | insideToo
      · rfl
      · exact agree second insideToo same
      · exact (agree first inside same.symm).symm
      · exact rest.agree first inside second insideToo same

/-- **A list of entries can be added** exactly if the table admits it. -/
theorem exists_insertAll_iff : (∃ after, start.insertAll entries = .ok after) ↔ start.Admits entries := by
  induction entries generalizing start with
  | nil => exact ⟨fun _ => ⟨nofun, nofun, nofun⟩, fun _ => ⟨start, rfl⟩⟩
  | cons numbered entries ih =>
    rw [admits_cons, ← ih]
    constructor
    · rintro ⟨after, done⟩
      obtain ⟨middle, step, rest⟩ := insertAll_cons.mp done
      obtain ⟨readable, free, rfl⟩ := insert_eq_ok.mp step
      exact ⟨readable, free, after, rest⟩
    · rintro ⟨readable, free, after, rest⟩
      exact ⟨after, insertAll_cons.mpr ⟨_, insert_eq_ok.mpr ⟨readable, free, rfl⟩, rest⟩⟩

/-- **The table with a list of entries more** holds these entries and those that it held before. -/
theorem holds_of_insertAll (done : start.insertAll entries = .ok after) (entry : Entry) :
    after.Holds entry ↔ start.Holds entry ∨ ∃ line, (line, entry) ∈ entries := by
  induction entries generalizing start with
  | nil =>
    cases done
    simp
  | cons numbered entries ih =>
    obtain ⟨middle, step, rest⟩ := insertAll_cons.mp done
    obtain ⟨-, free, rfl⟩ := insert_eq_ok.mp step
    have step : (start.put numbered.2).Holds entry ↔ start.Holds entry ∨ entry = numbered.2 := by
      rw [Holds, get?_put]
      split_ifs with same
      · constructor
        · intro found
          exact .inr (Entry.eq_of_key_new same.symm (Option.some.inj found).symm)
        · rintro (held | rfl)
          · rw [free entry.new (same ▸ held)]
          · rfl
      · constructor
        · exact .inl
        · rintro (held | rfl)
          · exact held
          · exact absurd rfl same
    rw [ih rest, step, or_assoc]
    refine or_congr_right ⟨?_, ?_⟩
    · rintro (rfl | ⟨line, member⟩)
      · exact ⟨numbered.1, List.mem_cons_self⟩
      · exact ⟨line, List.mem_cons_of_mem _ member⟩
    · rintro ⟨line, member⟩
      obtain same | member := List.mem_cons.mp member
      · exact .inl (congrArg Prod.snd same)
      · exact .inr ⟨line, member⟩

/-! ### The table of a list of entries -/

/-- **A list of entries has a table** exactly if its entries can be read and do not contradict each other. -/
theorem exists_ofForward_iff : (∃ table, ofForward entries = .ok table) ↔
    (∀ numbered ∈ entries, numbered.2.Readable) ∧
      ∀ first ∈ entries, ∀ second ∈ entries, first.2.key = second.2.key → first.2.new = second.2.new := by
  have opened : (∃ table, ofForward entries = .ok table) ↔ ({} : Table).Admits entries := exists_insertAll_iff
  rw [opened]
  constructor
  · exact fun admits => ⟨admits.readable, admits.agree⟩
  · rintro ⟨readable, agree⟩
    refine ⟨readable, fun numbered _ found answered => ?_, agree⟩
    rw [get?_empty] at answered
    cases answered

/-- **The table of a list of entries** holds these entries and no others. -/
theorem holds_ofForward (done : ofForward entries = .ok table) (entry : Entry) :
    table.Holds entry ↔ ∃ line, (line, entry) ∈ entries := by
  have built : ({} : Table).insertAll entries = .ok table := done
  rw [holds_of_insertAll built, Holds, get?_empty]
  simp

/-- The table of a list of entries answers no key that is that of none of them. -/
theorem get?_ofForward_eq_none (done : ofForward entries = .ok table) (key : Key)
    (absent : ∀ numbered ∈ entries, numbered.2.key ≠ key) : table.get? key = none := by
  have holds := holds_ofForward done
  refine Option.eq_none_iff_forall_not_mem.mpr fun new found => ?_
  cases key with
  | ofClass name =>
    obtain ⟨line, member⟩ := (holds (.ofClass name new)).mp found
    exact absent _ member rfl
  | ofField owner name =>
    obtain ⟨line, member⟩ := (holds (.ofField owner name new)).mp found
    exact absent _ member rfl
  | ofMethod owner name descriptor =>
    obtain ⟨line, member⟩ := (holds (.ofMethod owner name descriptor new)).mp found
    exact absent _ member rfl

/-- **The answers of the table** of a list of entries are those of the first entries for their keys. -/
theorem get?_ofForward (done : ofForward entries = .ok table) (key : Key) :
    table.get? key = (entries.find? fun numbered => numbered.2.key = key).map fun numbered => numbered.2.new := by
  cases found : entries.find? fun numbered => numbered.2.key = key with
  | none =>
    refine get?_ofForward_eq_none done key fun numbered member => ?_
    simpa using List.find?_eq_none.mp found numbered member
  | some numbered =>
    have same : numbered.2.key = key := by simpa using List.find?_some found
    have held := (holds_ofForward done numbered.2).mpr ⟨numbered.1, List.mem_of_find?_eq_some found⟩
    rw [Holds, same] at held
    exact held

theorem class?_ofForward (done : ofForward entries = .ok table) : table.class? = fun name =>
    (entries.find? fun numbered => numbered.2.key = .ofClass name).map fun numbered => numbered.2.new := by
  funext name
  exact get?_ofForward done (.ofClass name)

theorem ofEntries_forward : ofEntries entries .forward = ofForward entries := by
  rw [ofEntries]
  cases ofForward entries <;> rfl

theorem ofEntries_reverse (done : ofForward entries = .ok table) :
    ofEntries entries .reverse = ofReverse table entries := by
  rw [ofEntries, done]
  rfl

end Table

end JarRename
