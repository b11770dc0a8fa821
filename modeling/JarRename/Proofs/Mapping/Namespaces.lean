import JarRename.Proofs.Descriptor.Laws
import JarRename.Proofs.Mapping.Reverse
import JarRename.Proofs.Mapping.SourceType
import Mathlib.Data.List.Induction

/-!
**The two namespaces of a mapping.**

Records go from readable to obfuscated names and make entries that go back. The types in them are readable, and become
descriptors with the obfuscated names of the classes that any record lists. So the forward table is asked with obfuscated
names only and the reversed one with readable names only.

* `Mapping.Lists`, `Mapping.StandsIn`: the classes that records list, and the class that a record stands in;
* `Mapping.Tells`, `Mapping.mem_recordEntries`: the entries of records, each under the class in front of it;
* `Table.ofRecords`: the table of records;
* `Table.class?_iff`, `Table.rename_iff`: the listed classes in the forward table and in descriptors;
* `Table.rename_back`: the types of a method in obfuscated names, taken back to readable ones;
* `Table.ofRecords_apart`: what both tables answer for a method.
-/

namespace JarRename

namespace Mapping

variable {names : TypeNames} {records : List Record} {entries found : List Numbered} {owner : Option String}

/-! ### Listed classes -/

/-- The records list a class, with its names in internal form. -/
def Lists (records : List Record) (readable obfuscated : String) : Prop :=
  ∃ old new, .ofClass old new ∈ records ∧ internalName old = readable ∧ internalName new = obfuscated

/-- The name of a class is the one in its last record. -/
theorem rename_typeNames_concat (records : List Record) (record : Record) (name : String) :
    (typeNames (records ++ [record])).rename name =
      match record with
      | .ofClass readable obfuscated =>
        if internalName readable = name then some (internalName obfuscated) else (typeNames records).rename name
      | _ => (typeNames records).rename name := by
  rw [typeNames, List.foldl_append]
  cases record <;> simp [TypeNames.rename, typeNames, Std.HashMap.getElem?_insert]

/-- Only listed classes have a name in descriptors. -/
theorem lists_of_rename {readable obfuscated : String}
    (known : (typeNames records).rename readable = some obfuscated) : Lists records readable obfuscated := by
  induction records using List.reverseRecOn with
  | nil => simp [typeNames, TypeNames.rename] at known
  | append_singleton records record ih =>
    have before (earlier : (typeNames records).rename readable = some obfuscated) :
        Lists (records ++ [record]) readable obfuscated := by
      obtain ⟨old, new, member, names⟩ := ih earlier
      exact ⟨old, new, List.mem_append_left _ member, names⟩
    rw [rename_typeNames_concat] at known
    cases record with
    | ofClass old new =>
      dsimp only at known
      split_ifs at known with same
      · exact ⟨old, new, List.mem_append_right _ List.mem_cons_self, same, Option.some.inj known⟩
      · exact before known
    | _ => exact before known

/-- Every listed class has a name in descriptors. -/
theorem exists_rename_of_lists {readable obfuscated : String} (listed : Lists records readable obfuscated) :
    ∃ name, (typeNames records).rename readable = some name := by
  induction records using List.reverseRecOn with
  | nil =>
    obtain ⟨old, new, member, -⟩ := listed
    cases member
  | append_singleton records record ih =>
    obtain ⟨old, new, member, rfl, rfl⟩ := listed
    rw [rename_typeNames_concat]
    rcases List.mem_append.mp member with earlier | last
    · obtain ⟨name, known⟩ := ih ⟨old, new, earlier, rfl, rfl⟩
      rw [known]
      cases record with
      | ofClass readable obfuscated =>
        dsimp only
        split_ifs
        · exact ⟨_, rfl⟩
        · exact ⟨_, rfl⟩
      | _ => exact ⟨_, rfl⟩
    · rw [← List.mem_singleton.mp last]
      exact ⟨_, if_pos rfl⟩

/-! ### Entries under classes -/

/-- The class that the records after a record belong to. -/
def ownerAfter (owner : Option String) : Record → Option String
  | .ofClass _ obfuscated => some (internalName obfuscated)
  | _ => owner

theorem ownerAfter_eq_self {record : Record} (isMember : ∀ old new, record ≠ .ofClass old new) :
    ownerAfter owner record = owner := by
  cases record with
  | ofClass old new => exact absurd rfl (isMember old new)
  | _ => rfl

/-- A record is that of a class, which its entry tells, or its entry is none of a class. -/
theorem recordEntry_cases {record : Record} {next : Option String} {entry : Option Entry}
    (done : recordEntry names owner record = .ok (next, entry)) :
    (∃ readable obfuscated, record = .ofClass readable obfuscated ∧ next = some (internalName obfuscated) ∧
      entry = some (.ofClass (internalName obfuscated) (internalName readable))) ∨
    ((∀ old new, record ≠ .ofClass old new) ∧ next = owner ∧ ∀ old new, entry ≠ some (.ofClass old new)) := by
  cases record with
  | header =>
    cases done
    exact .inr ⟨nofun, rfl, nofun⟩
  | ofClass readable obfuscated =>
    cases done
    exact .inl ⟨readable, obfuscated, rfl, rfl, rfl⟩
  | ofField readable obfuscated =>
    cases owner <;> cases done
    exact .inr ⟨nofun, rfl, nofun⟩
  | ofMethod result around readable arguments obfuscated =>
    dsimp only [recordEntry] at done
    split_ifs at done
    · cases done
      exact .inr ⟨nofun, rfl, nofun⟩
    · cases owner <;> cases done
      exact .inr ⟨nofun, rfl, nofun⟩

theorem eq_ownerAfter {record : Record} {next : Option String} {entry : Option Entry}
    (done : recordEntry names owner record = .ok (next, entry)) : next = ownerAfter owner record := by
  obtain ⟨readable, obfuscated, rfl, rfl, -⟩ | ⟨isMember, rfl, -⟩ := recordEntry_cases done
  · rfl
  · exact (ownerAfter_eq_self isMember).symm

/-- What numbered records say after a class: what the first one says, or what the others say after it. -/
inductive Tells (names : TypeNames) : Option String → List (Record × Nat) → Numbered → Prop
  | here {owner next : Option String} {record : Record} {number : Nat} {entry : Entry} {rest : List (Record × Nat)}
    (done : recordEntry names owner record = .ok (next, some entry)) :
    Tells names owner ((record, number) :: rest) (number, entry)
  | later {owner : Option String} {record : Record} {number : Nat} {rest : List (Record × Nat)} {said : Numbered}
    (behind : Tells names (ownerAfter owner record) rest said) : Tells names owner ((record, number) :: rest) said

/-- What records say is what the first one says or what the others say. -/
theorem tells_cons {record : Record} {number : Nat} {rest : List (Record × Nat)} {next : Option String}
    {entry : Option Entry} (done : recordEntry names owner record = .ok (next, entry)) (said : Numbered) :
    Tells names owner ((record, number) :: rest) said ↔
      (said.1 = number ∧ entry = some said.2) ∨ Tells names next rest said := by
  have after := eq_ownerAfter done
  subst after
  constructor
  · intro told
    cases told with
    | here first =>
      cases done.symm.trans first
      exact .inl ⟨rfl, rfl⟩
    | later behind => exact .inr behind
  · rintro (⟨rfl, rfl⟩ | behind)
    · exact .here done
    · exact .later behind

/-- **The entries of records** are what the records say, each under the class in front of it. -/
theorem mem_recordEntries {numbered : List (Record × Nat)}
    (done : recordEntries names owner found numbered = .ok entries) (said : Numbered) :
    said ∈ entries ↔ said ∈ found ∨ Tells names owner numbered said := by
  induction numbered generalizing owner found with
  | nil =>
    cases done
    rw [List.mem_reverse]
    exact ⟨.inl, fun both => both.resolve_right nofun⟩
  | cons first rest ih =>
    obtain ⟨record, number⟩ := first
    rw [recordEntries] at done
    split at done
    next => cases done
    next next step =>
      rw [ih done, tells_cons step]
      simp
    next next entry step =>
      rw [ih done, tells_cons step, List.mem_cons, Prod.ext_iff, Option.some_inj, eq_comm (a := entry)]
      tauto

/-- What records say behind others is what they say after the last class of those. -/
theorem tells_append {before rest : List (Record × Nat)} {said : Numbered}
    (behind : Tells names (before.foldl (fun owner first => ownerAfter owner first.1) owner) rest said) :
    Tells names owner (before ++ rest) said := by
  induction before generalizing owner with
  | nil => exact behind
  | cons first before ih => exact .later (ih behind)

/-- A class entry is told by the record of that class. -/
theorem lists_of_tells {start number : Nat} {old new : String}
    (told : Tells names owner (records.zipIdx start) (number, .ofClass old new)) : Lists records new old := by
  induction records generalizing owner start with
  | nil => cases told
  | cons record records ih =>
    have later (listed : Lists records new old) : Lists (record :: records) new old := by
      obtain ⟨readable, obfuscated, member, names⟩ := listed
      exact ⟨readable, obfuscated, List.mem_cons_of_mem _ member, names⟩
    rw [List.zipIdx_cons] at told
    cases told with
    | later behind => exact later (ih behind)
    | here done =>
      obtain ⟨readable, obfuscated, rfl, -, same⟩ | ⟨-, -, other⟩ := recordEntry_cases done
      · cases same
        exact ⟨readable, obfuscated, List.mem_cons_self, rfl, rfl⟩
      · exact absurd rfl (other old new)

/-- A record stands in a class: no record of another class is between the two. -/
def StandsIn (records : List Record) (readable obfuscated : List Char) (record : Record) : Prop :=
  ∃ before between after, records = before ++ .ofClass readable obfuscated :: (between ++ record :: after) ∧
    ∀ other ∈ between, ∀ old new, other ≠ .ofClass old new

theorem lists_of_standsIn {readable obfuscated : List Char} {record : Record}
    (inside : StandsIn records readable obfuscated record) :
    Lists records (internalName readable) (internalName obfuscated) := by
  obtain ⟨before, between, after, rfl, -⟩ := inside
  exact ⟨readable, obfuscated, by simp, rfl, rfl⟩

/-- Records of members do not change the class. -/
theorem foldl_ownerAfter {between : List Record} (members : ∀ other ∈ between, ∀ old new, other ≠ .ofClass old new)
    (start : Nat) : (between.zipIdx start).foldl (fun owner first => ownerAfter owner first.1) owner = owner := by
  induction between generalizing start with
  | nil => rfl
  | cons record between ih =>
    rw [List.zipIdx_cons, List.foldl_cons, ownerAfter_eq_self (members record List.mem_cons_self)]
    exact ih (fun other member => members other (List.mem_cons_of_mem _ member)) (start + 1)

/-- **A record that stands in a class** is told under that class. -/
theorem tells_of_standsIn {readable obfuscated : List Char} {record : Record} {next : Option String} {entry : Entry}
    (inside : StandsIn records readable obfuscated record)
    (done : recordEntry names (some (internalName obfuscated)) record = .ok (next, some entry)) (start : Nat) :
    ∃ number, Tells names owner (records.zipIdx start) (number, entry) := by
  obtain ⟨before, between, after, rfl, members⟩ := inside
  refine ⟨start + before.length + 1 + between.length, ?_⟩
  rw [List.zipIdx_append, List.zipIdx_cons, List.zipIdx_append, List.zipIdx_cons]
  refine tells_append (.later (tells_append ?_))
  rw [foldl_ownerAfter members]
  exact .here done

end Mapping

namespace Table

open Mapping

/-! ### The table of records -/

/-- The table of records in a direction. -/
def ofRecords (records : List Record) (direction : Direction) : Except MappingError Table := do
  let entries ← recordEntries (typeNames records) none [] (records.zipIdx 1)
  ofEntries entries direction

/-- A text in this format has the table of its records. -/
theorem parse_eq_ofRecords {text : String} {records : List Record} (shown : Format.detect text = .proGuard)
    (read : Record.parse text = .ok records) (direction : Direction) :
    Table.parse text direction = ofRecords records direction := by
  rw [Table.parse, shown, parseAs, parseProGuard, read]
  rfl

theorem ofRecords_eq {records : List Record} {entries : List Numbered}
    (read : recordEntries (typeNames records) none [] (records.zipIdx 1) = .ok entries) (direction : Direction) :
    ofRecords records direction = ofEntries entries direction := by
  rw [ofRecords, read, ok_bind]

/-- A class of a type that has the obfuscated name of a listed class is listed itself. -/
def Apart (records : List Record) (type : MethodType) : Prop :=
  ∀ name ∈ type.classNames, (∃ readable, Lists records readable name) → ∃ obfuscated, Lists records name obfuscated

section Loaded

variable {records : List Record} {entries : List Numbered} {forward reverse : Table}

/-- **The classes of the forward table** are the listed classes. -/
theorem class?_iff (read : recordEntries (typeNames records) none [] (records.zipIdx 1) = .ok entries)
    (done : ofForward entries = .ok forward) (old new : String) :
    forward.class? old = some new ↔ Lists records new old := by
  refine (holds_ofForward done (.ofClass old new)).trans ?_
  constructor
  · rintro ⟨number, member⟩
    exact lists_of_tells (((mem_recordEntries read _).mp member).resolve_left List.not_mem_nil)
  · rintro ⟨readable, obfuscated, member, rfl, rfl⟩
    obtain ⟨before, after, rfl⟩ := List.append_of_mem member
    refine ⟨1 + before.length, (mem_recordEntries read _).mpr (.inr ?_)⟩
    rw [List.zipIdx_append, List.zipIdx_cons]
    exact tells_append (.here rfl)

/-- A method of a listed class has an entry under the obfuscated name of that class. -/
theorem exists_method_entry (read : recordEntries (typeNames records) none [] (records.zipIdx 1) = .ok entries)
    {readable obfuscated result name arguments newName : List Char}
    (inside : StandsIn records readable obfuscated (.ofMethod result none name arguments newName))
    (member : name.head? ≠ some '<') :
    ∃ number, (number, .ofMethod (internalName obfuscated) (String.ofList newName)
      ((sourceMethod arguments result).rename (typeNames records).rename).toText (String.ofList name)) ∈ entries := by
  have made : recordEntry (typeNames records) (some (internalName obfuscated))
      (.ofMethod result none name arguments newName) = .ok (some (internalName obfuscated),
        some (.ofMethod (internalName obfuscated) (String.ofList newName)
          (methodDescriptor (typeNames records) arguments result) (String.ofList name))) := by
    rw [recordEntry, if_neg (by simp [member])]
  rw [← methodDescriptor_eq]
  obtain ⟨number, told⟩ := tells_of_standsIn inside made 1
  exact ⟨number, (mem_recordEntries read _).mpr (.inr told)⟩

variable (read : recordEntries (typeNames records) none [] (records.zipIdx 1) = .ok entries)
  (done : ofForward entries = .ok forward) (reversed : ofReverse forward entries = .ok reverse)
include read done reversed

/-- **The classes in descriptors** are the listed classes, if the records can be reversed. -/
theorem rename_iff (old new : String) : (typeNames records).rename old = some new ↔ Lists records old new := by
  constructor
  · exact lists_of_rename
  · intro listed
    obtain ⟨other, known⟩ := exists_rename_of_lists listed
    have one := (class?_ofReverse done reversed old new).mpr ((class?_iff read done new old).mpr listed)
    have two := (class?_ofReverse done reversed old other).mpr
      ((class?_iff read done other old).mpr (lists_of_rename known))
    rw [known, ← two, one]

/-- **The types of a method** in obfuscated names are taken back to readable ones by the forward table. -/
theorem rename_back {type : MethodType} (apart : Apart records type) :
    (type.rename (typeNames records).rename).rename forward.class? = type := by
  rw [MethodType.rename_rename]
  refine MethodType.rename_eq_self fun name used => ?_
  show renameOrKeep forward.class? (renameOrKeep (typeNames records).rename name) = name
  cases known : (typeNames records).rename name with
  | some obfuscated =>
    have back := (class?_iff read done obfuscated name).mpr (lists_of_rename known)
    rw [renameOrKeep, renameOrKeep, known, Option.getD_some, back, Option.getD_some]
  | none =>
    have free : forward.class? name = none := by
      refine Option.eq_none_iff_forall_ne_some.mpr fun readable found => ?_
      obtain ⟨obfuscated, listed⟩ := apart name used ⟨readable, (class?_iff read done name readable).mp found⟩
      rw [(rename_iff read done reversed name obfuscated).mpr listed] at known
      cases known
    rw [renameOrKeep, renameOrKeep, known, Option.getD_none, free, Option.getD_none]

end Loaded

/-! ### Names kept apart -/

/-- **The namespaces are kept apart.** Take records that can be loaded both ways, which are loaded like any text that is
read as them, and a method in a listed class. A class of its type that is not listed must not have the obfuscated name
of a listed one, and a class of its renamed type no semicolon. Then the reversed table answers the readable name and
descriptor with the obfuscated name, the forward table answers the other way round, and the descriptor in which every
listed class has its obfuscated name is taken back to the readable one. The classes may be listed anywhere. -/
theorem ofRecords_apart {records : List Record} {forward reverse : Table}
    (loaded : ofRecords records .forward = .ok forward) (reversed : ofRecords records .reverse = .ok reverse)
    {readable obfuscated result name arguments newName : List Char}
    (inside : StandsIn records readable obfuscated (.ofMethod result none name arguments newName))
    (member : name.head? ≠ some '<') (apart : Apart records (sourceMethod arguments result))
    (uncut : ∀ used ∈ ((sourceMethod arguments result).rename (typeNames records).rename).classNames,
      ';' ∉ used.toList) :
    (∀ text, Format.detect text = .proGuard → Record.parse text = .ok records →
      ∀ direction, Table.parse text direction = ofRecords records direction) ∧
    let type := sourceMethod arguments result
    let renamed := type.rename (typeNames records).rename
    (∀ old new, (typeNames records).rename old = some new ↔ Lists records old new) ∧
      reverse.method? (internalName readable) (String.ofList name) type.toText = some (String.ofList newName) ∧
      forward.method? (internalName obfuscated) (String.ofList newName) renamed.toText = some (String.ofList name) ∧
      forward.mapDescriptor renamed.toText = .ok type.toText := by
  refine ⟨fun text => parse_eq_ofRecords, ?_⟩
  intro type renamed
  obtain ⟨entries, read, done⟩ := bind_eq_ok.mp loaded
  rw [ofEntries_forward] at done
  rw [ofRecords_eq read, ofEntries_reverse done] at reversed
  have listed := exists_method_entry read inside member
  have named : renamed.WellNamed := by
    obtain ⟨number, listed⟩ := listed
    obtain ⟨sound, -⟩ := exists_ofForward_iff.mp ⟨forward, done⟩
    obtain ⟨found, parsed⟩ := sound _ listed
    exact MethodType.wellNamed_of_parse uncut parsed
  have there : forward.method? (internalName obfuscated) (String.ofList newName) renamed.toText =
      some (String.ofList name) := (holds_ofForward done _).mpr listed
  have back : forward.mapDescriptor renamed.toText = .ok type.toText := by
    refine Descriptor.rename_eq_ok.mpr (.inl ⟨renamed, named, rfl, ?_⟩)
    rw [rename_back read done reversed apart]
  have owner : internalName readable = forward.classOrKeep (internalName obfuscated) := by
    have found := (class?_iff read done _ _).mpr (lists_of_standsIn inside)
    rw [classOrKeep, renameOrKeep, found, Option.getD_some]
  exact ⟨rename_iff read done reversed,
    (method?_ofReverse done reversed _ _ _ _).mpr ⟨_, _, there, owner, back⟩, there, back⟩

/-- A method whose types name a class that is listed behind it. -/
def laterText : String :=
  "p.World -> a:\n    1:3:p.Mob[] spawn(p.Mob, int) -> d\np.Mob -> e:\n"

/-- The records of that text. -/
def laterRecords : List Record :=
  [.ofClass "p.World".toList ['a'],
    .ofMethod "p.Mob[]".toList none "spawn".toList "p.Mob, int".toList ['d'],
    .ofClass "p.Mob".toList ['e']]

/-- Their entries. -/
def laterEntries : List Numbered :=
  [(1, .ofClass "a" "p/World"), (2, .ofMethod "a" "d" "(Le;I)[Le;" "spawn"), (3, .ofClass "e" "p/Mob")]

/-- The type of the method. -/
def laterType : MethodType :=
  ⟨[.object "p/Mob", .base .int], .array (.object "p/Mob")⟩

theorem sourceMethod_later : sourceMethod "p.Mob, int".toList "p.Mob[]".toList = laterType := rfl

theorem internalName_later : internalName "p.World".toList = "p/World" ∧ internalName "p.Mob".toList = "p/Mob" :=
  ⟨rfl, rfl⟩

theorem rename_laterType :
    laterType.rename (typeNames laterRecords).rename = ⟨[.object "e", .base .int], .array (.object "e")⟩ := by
  have listed : typeNames laterRecords = (({} : TypeNames).insert "p/World" "a").insert "p/Mob" "e" := by
    obtain ⟨world, mob⟩ := internalName_later
    rw [← world, ← mob]
    rfl
  simp [listed, laterType, MethodType.rename, FieldType.rename, renameOrKeep, TypeNames.rename]

theorem recordEntries_later :
    recordEntries (typeNames laterRecords) none [] (laterRecords.zipIdx 1) = .ok laterEntries := by
  have made (names : TypeNames) : recordEntries names none [] (laterRecords.zipIdx 1) =
      .ok [(1, .ofClass (internalName ['a']) (internalName "p.World".toList)),
        (2, .ofMethod (internalName ['a']) "d"
          (methodDescriptor names "p.Mob, int".toList "p.Mob[]".toList) "spawn"),
        (3, .ofClass (internalName ['e']) (internalName "p.Mob".toList))] := rfl
  rw [made, methodDescriptor_eq, sourceMethod_later, rename_laterType]
  rfl

/-- The entries swapped, in the spelling of their table. -/
theorem swapNumbered_later {forward : Table} (done : ofForward laterEntries = .ok forward) :
    laterEntries.mapM forward.swapNumbered = .ok [(1, .ofClass "p/World" "a"),
      (2, .ofMethod "p/World" "spawn" "(Lp/Mob;I)[Lp/Mob;" "d"), (3, .ofClass "p/Mob" "e")] := by
  simp only [laterEntries, List.mapM_cons, List.mapM_nil, swapNumbered, swap, classOrKeep, mapDescriptor,
    class?_ofForward done]
  decide +kernel

theorem ofRecords_apart_later : Format.detect laterText = .proGuard ∧ Record.parse laterText = .ok laterRecords ∧
    ∃ forward reverse, Table.parse laterText .forward = .ok forward ∧ Table.parse laterText .reverse = .ok reverse ∧
      reverse.method? "p/World" "spawn" "(Lp/Mob;I)[Lp/Mob;" = some "d" ∧
      forward.method? "a" "d" "(Le;I)[Le;" = some "spawn" ∧
      forward.mapDescriptor "(Le;I)[Le;" = .ok "(Lp/Mob;I)[Lp/Mob;" := by
  have shown : Format.detect laterText = .proGuard := by decide +kernel
  have read : Record.parse laterText = .ok laterRecords := by decide +kernel
  obtain ⟨forward, done⟩ : ∃ forward, ofForward laterEntries = .ok forward :=
    exists_ofForward_iff.mpr (by decide +kernel)
  obtain ⟨reverse, swapped⟩ : ∃ reverse, ofReverse forward laterEntries = .ok reverse := by
    rw [ofReverse_eq (swapNumbered_later done)]
    exact exists_ofForward_iff.mpr (by decide +kernel)
  have loaded : ofRecords laterRecords .forward = .ok forward := by
    rw [ofRecords_eq recordEntries_later, ofEntries_forward, done]
  have reversed : ofRecords laterRecords .reverse = .ok reverse := by
    rw [ofRecords_eq recordEntries_later, ofEntries_reverse done, swapped]
  obtain ⟨world, mob⟩ := internalName_later
  have inside : StandsIn laterRecords "p.World".toList ['a']
      (.ofMethod "p.Mob[]".toList none "spawn".toList "p.Mob, int".toList ['d']) :=
    ⟨[], [], _, rfl, nofun⟩
  have apart : Apart laterRecords laterType := by
    intro name used _
    have same : name = "p/Mob" := by simpa [laterType, MethodType.classNames, FieldType.className?] using used
    exact ⟨"e", "p.Mob".toList, ['e'], by simp [laterRecords], by rw [same, mob], rfl⟩
  have uncut : ∀ used ∈ (laterType.rename (typeNames laterRecords).rename).classNames, ';' ∉ used.toList := by
    rw [rename_laterType]
    decide
  rw [← sourceMethod_later] at apart uncut
  obtain ⟨parsed, -, found⟩ := ofRecords_apart loaded reversed inside (by decide) apart uncut
  have spelled : laterType.toText = "(Lp/Mob;I)[Lp/Mob;" ∧
      MethodType.toText ⟨[.object "e", .base .int], .array (.object "e")⟩ = "(Le;I)[Le;" ∧
      internalName ['a'] = "a" := ⟨rfl, rfl, rfl⟩
  rw [sourceMethod_later, rename_laterType, world, spelled.1, spelled.2.1, spelled.2.2] at found
  exact ⟨shown, read, forward, reverse, (parsed _ shown read .forward).trans loaded,
    (parsed _ shown read .reverse).trans reversed, found⟩

/-! ### Names that are not kept apart -/

/-- A method with a type that has a semicolon. -/
def cutText : String :=
  "X -> a:\n    void m(a;Lb) -> n\n"

/-- The record of the method. -/
def cutMethod : Record :=
  .ofMethod "void".toList none ['m'] "a;Lb".toList ['n']

/-- The records of that text. -/
def cutRecords : List Record :=
  [.ofClass ['X'] ['a'], cutMethod]

/-- Their entries. -/
def cutEntries : List Numbered :=
  [(1, .ofClass "a" "X"), (2, .ofMethod "a" "n" "(La;Lb;)V" "m")]

/-- The type of the method, with a class that is not listed. -/
def cutType : MethodType :=
  ⟨[.object "a;Lb"], .base .void⟩

theorem sourceMethod_cut : sourceMethod "a;Lb".toList "void".toList = cutType := rfl

theorem rename_cutType : cutType.rename (typeNames cutRecords).rename = cutType := by
  have listed : typeNames cutRecords = ({} : TypeNames).insert "X" "a" := rfl
  simp [listed, cutType, MethodType.rename, FieldType.rename, renameOrKeep, TypeNames.rename]

theorem apart_cutType : Apart cutRecords cutType := by
  rintro name used ⟨readable, old, new, member, -, same⟩
  have unlisted : name = "a;Lb" := by simpa [cutType, MethodType.classNames, FieldType.className?] using used
  obtain ⟨rfl, rfl⟩ : old = ['X'] ∧ new = ['a'] := by simpa [cutRecords, cutMethod] using member
  exact absurd (same.trans unlisted) (by decide)

theorem recordEntries_cut : recordEntries (typeNames cutRecords) none [] (cutRecords.zipIdx 1) = .ok cutEntries := by
  have made (names : TypeNames) : recordEntries names none [] (cutRecords.zipIdx 1) =
      .ok [(1, .ofClass (internalName ['a']) (internalName ['X'])),
        (2, .ofMethod (internalName ['a']) "n" (methodDescriptor names "a;Lb".toList "void".toList) "m")] := rfl
  rw [made, methodDescriptor_eq, sourceMethod_cut, rename_cutType]
  rfl

/-- The descriptor is read with two classes, one of which is listed. -/
theorem mapDescriptor_cut {forward : Table} (done : ofForward cutEntries = .ok forward) :
    forward.mapDescriptor "(La;Lb;)V" = .ok "(LX;Lb;)V" := by
  rw [mapDescriptor, class?_ofForward done]
  decide +kernel

theorem swapNumbered_cut {forward : Table} (done : ofForward cutEntries = .ok forward) :
    cutEntries.mapM forward.swapNumbered =
      .ok [(1, .ofClass "X" "a"), (2, .ofMethod "X" "m" "(LX;Lb;)V" "n")] := by
  simp only [cutEntries, List.mapM_cons, List.mapM_nil, swapNumbered, swap, mapDescriptor_cut done, classOrKeep,
    class?_ofForward done]
  decide +kernel

/-- **A semicolon lets the namespaces meet.** The class of the type is not listed and has no obfuscated name, but its
descriptor is read with a class that has one. So neither table answers as it would for names that are kept apart. -/
theorem not_ofRecords_apart : Format.detect cutText = .proGuard ∧ Record.parse cutText = .ok cutRecords ∧
    StandsIn cutRecords ['X'] ['a'] cutMethod ∧ Apart cutRecords (sourceMethod "a;Lb".toList "void".toList) ∧
    ∃ forward reverse, Table.parse cutText .forward = .ok forward ∧ Table.parse cutText .reverse = .ok reverse ∧
      reverse.method? "X" "m" (sourceMethod "a;Lb".toList "void".toList).toText ≠ some "n" ∧
      forward.mapDescriptor (cutType.rename (typeNames cutRecords).rename).toText ≠
        .ok (sourceMethod "a;Lb".toList "void".toList).toText := by
  have shown : Format.detect cutText = .proGuard := by decide +kernel
  have read : Record.parse cutText = .ok cutRecords := by decide +kernel
  obtain ⟨forward, done⟩ : ∃ forward, ofForward cutEntries = .ok forward :=
    exists_ofForward_iff.mpr (by decide +kernel)
  obtain ⟨reverse, reversed⟩ : ∃ reverse, ofReverse forward cutEntries = .ok reverse := by
    rw [ofReverse_eq (swapNumbered_cut done)]
    exact exists_ofForward_iff.mpr (by decide +kernel)
  have spelled : cutType.toText = "(La;Lb;)V" := rfl
  rw [sourceMethod_cut, rename_cutType, spelled, parse_eq_ofRecords shown read, parse_eq_ofRecords shown read]
  refine ⟨shown, read, ⟨[], [], [], rfl, nofun⟩, apart_cutType, forward, reverse, ?_, ?_, ?_, ?_⟩
  · rw [ofRecords_eq recordEntries_cut, ofEntries_forward, done]
  · rw [ofRecords_eq recordEntries_cut, ofEntries_reverse done, reversed]
  · intro found
    obtain ⟨owner, descriptor, there, -, back⟩ := (method?_ofReverse done reversed _ _ _ _).mp found
    obtain ⟨number, member⟩ := (holds_ofForward done (.ofMethod owner "n" descriptor "m")).mp there
    have listed : number = 2 ∧ owner = "a" ∧ descriptor = "(La;Lb;)V" := by simpa [cutEntries] using member
    rw [listed.2.2, mapDescriptor_cut done] at back
    exact absurd (Except.ok.inj back) (by decide)
  · rw [mapDescriptor_cut done]
    decide

end Table

end JarRename
