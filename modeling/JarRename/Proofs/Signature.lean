import JarRename.Signature
import JarRename.Proofs.Outcome
import JarRename.Proofs.Text.Lines
import Mathlib.Data.List.TakeWhile

/-!
**Reading a signature loses nothing.**

Every reader of a signature goes forward, and what it leaves behind is written in the parts that it finds. A class
signature and the signature of a field are read to their ends; only behind a complete method signature can characters
be left. So a signature in which no class is renamed stays as it is, unless characters are left behind it.

* `written`, `Lossless`: the text of parts, and readers whose parts have the text that was read;
* `lossless_typeAt`, `lossless_parts`: types by induction over their nesting, and whole signatures;
* `leftover`: what is left behind a complete method signature;
* `classNames`, `rename_of_kept`: the classes that a signature asks about, and a signature in which all keep their names;
* `rename_nothing`: a signature under the renaming that renames no class.
-/

namespace JarRename.Signature

variable {whole : String} {limit : Nat} {text rest : List Char} {found : List Part}

/-! ### The text of parts -/

/-- The text that parts were read from. -/
def written (found : List Part) : List Char :=
  found.flatMap (Part.render fun _ => none)

theorem written_append (first second : List Part) : written (first ++ second) = written first ++ written second :=
  List.flatMap_append

theorem newName_none (name : List Char) : newName (fun _ => none) name = name := by
  rw [newName, renameOrKeep, Option.getD_none, String.toList_ofList]

theorem written_plain (text : List Char) (found : List Part) :
    written (.plain text :: found) = text ++ written found := rfl

theorem written_outer (name : List Char) (found : List Part) :
    written (.outer name :: found) = name ++ written found := by
  rw [written, List.flatMap_cons, Part.render, newName_none, written]

/-- A nested class is written without the name of the class around it. -/
theorem written_inner (around name : List Char) (found : List Part) :
    written (.inner around (around ++ '$' :: name) :: found) = name ++ written found := by
  have split : around ++ '$' :: name = around ++ ['$'] ++ name := by rw [List.append_assoc, List.singleton_append]
  rw [written, List.flatMap_cons, Part.render, newName_none, newName_none, split, Text.dropStart?_eq_some.mpr rfl,
    Option.getD_some, written]

/-! ### Single characters and names -/

/-- The parts that a reader finds have the text that it reads. -/
def Lossless (scan : Scan (List Part)) : Prop :=
  ∀ text found rest, scan text = .ok (found, rest) → text = written found ++ rest

theorem peek_eq_ok {c : Char} : peek whole text = .ok (c, rest) ↔ text.head? = some c ∧ rest = text := by
  cases text with
  | nil => exact ⟨nofun, nofun⟩
  | cons d tail =>
    rw [List.head?_cons, Option.some.injEq]
    constructor
    · intro done
      cases done
      exact ⟨rfl, rfl⟩
    · rintro ⟨rfl, rfl⟩
      rfl

/-- What follows a look at the next character reads on from that character. -/
theorem peek_bind_eq_ok {α : Type} {after : Char → Scan α} {value : α} :
    (peek whole >>= after) text = .ok (value, rest) ↔
      ∃ c, text.head? = some c ∧ after c text = .ok (value, rest) := by
  rw [run_bind_eq_ok]
  constructor
  · rintro ⟨c, middle, peeked, done⟩
    obtain ⟨next, rfl⟩ := peek_eq_ok.mp peeked
    exact ⟨c, next, done⟩
  · rintro ⟨c, next, done⟩
    exact ⟨c, text, peek_eq_ok.mpr ⟨next, rfl⟩, done⟩

theorem expect_eq_ok {c : Char} :
    expect whole c text = .ok (found, rest) ↔ found = [.plain [c]] ∧ text = c :: rest := by
  cases text with
  | nil => exact ⟨nofun, nofun⟩
  | cons d tail =>
    unfold expect
    dsimp only
    by_cases same : d = c
    · subst same
      rw [if_pos rfl]
      constructor
      · intro done
        cases done
        exact ⟨rfl, rfl⟩
      · rintro ⟨rfl, equal⟩
        cases equal
        rfl
    · rw [if_neg same]
      refine ⟨nofun, ?_⟩
      rintro ⟨-, equal⟩
      cases equal
      exact absurd rfl same

theorem lossless_expect (c : Char) : Lossless (expect whole c) := by
  intro text found rest done
  obtain ⟨rfl, rfl⟩ := expect_eq_ok.mp done
  rfl

theorem append_of_readUntil {stops name : List Char} (done : readUntil whole stops text = .ok (name, rest)) :
    text = name ++ rest := by
  unfold readUntil at done
  have split := List.takeWhile_append_dropWhile (p := fun c => !stops.contains c) (l := text)
  cases stopped : text.dropWhile (fun c => !stops.contains c) with
  | nil =>
    rw [stopped] at done
    cases done
  | cons c tail =>
    rw [stopped] at done split
    cases done
    exact split.symm

/-! ### Items -/

/-- A test that only looks at the text. -/
def Looks (test : Scan Bool) : Prop :=
  ∀ text answer rest, test text = .ok (answer, rest) → rest = text

theorem looks_before (stop : Char) : Looks (before whole stop) := by
  intro text answer rest done
  obtain ⟨c, -, done⟩ := peek_bind_eq_ok.mp done
  exact (run_pure_eq_ok.mp done).2.symm

theorem next_eq_ok {c : Char} {answer : Bool} :
    next c text = .ok (answer, rest) ↔ answer = (text.head? == some c) ∧ rest = text := by
  rw [next, Except.ok.injEq, Prod.mk.injEq, eq_comm, @eq_comm _ text]

theorem looks_next (c : Char) : Looks (next c) :=
  fun _ _ _ done => (next_eq_ok.mp done).2

theorem looks_more : Looks more := by
  intro text answer rest done
  cases done
  rfl

/-- An item more, if the test asks for one. -/
theorem items_succ_eq_ok {test : Scan Bool} (looks : Looks test) {item : Scan (List Part)} {count : Nat} :
    items test item (count + 1) text = .ok (found, rest) ↔
      (test text = .ok (false, text) ∧ found = [] ∧ rest = text) ∨
      ∃ first later middle, test text = .ok (true, text) ∧ item text = .ok (first, middle) ∧
        items test item count middle = .ok (later, rest) ∧ found = first ++ later := by
  rw [items, run_bind_eq_ok]
  constructor
  · rintro ⟨answer, between, asked, done⟩
    obtain rfl : between = text := looks _ _ _ asked
    cases answer with
    | false =>
      obtain ⟨rfl, rfl⟩ := run_pure_eq_ok.mp done
      exact .inl ⟨asked, rfl, rfl⟩
    | true =>
      obtain ⟨first, middle, one, done⟩ := run_bind_eq_ok.mp done
      obtain ⟨later, last, others, done⟩ := run_bind_eq_ok.mp done
      obtain ⟨rfl, rfl⟩ := run_pure_eq_ok.mp done
      exact .inr ⟨first, later, middle, asked, one, others, rfl⟩
  · rintro (⟨asked, rfl, rfl⟩ | ⟨first, later, middle, asked, one, others, rfl⟩)
    · exact ⟨false, rest, asked, rfl⟩
    · refine ⟨true, text, asked, run_bind_eq_ok.mpr ⟨first, middle, one, ?_⟩⟩
      exact run_bind_eq_ok.mpr ⟨later, rest, others, rfl⟩

theorem lossless_items {test : Scan Bool} (looks : Looks test) {item : Scan (List Part)} (each : Lossless item)
    (count : Nat) : Lossless (items test item count) := by
  induction count with
  | zero =>
    intro text found rest done
    cases done
    rfl
  | succ count ih =>
    intro text found rest done
    rcases (items_succ_eq_ok looks).mp done with ⟨-, rfl, rfl⟩ | ⟨first, later, middle, -, one, others, rfl⟩
    · rfl
    · rw [each _ _ _ one, ih _ _ _ others, written_append, List.append_assoc]

/-- **All characters are read** as items, if each item takes a character and there may be enough of them. -/
theorem nil_of_items_more {item : Scan (List Part)}
    (takes : ∀ text found rest, item text = .ok (found, rest) → rest.length < text.length) {count : Nat}
    (enough : text.length ≤ count) (done : items more item count text = .ok (found, rest)) : rest = [] := by
  induction count generalizing text found with
  | zero =>
    cases done
    exact List.eq_nil_of_length_eq_zero (Nat.le_zero.mp enough)
  | succ count ih =>
    rcases (items_succ_eq_ok looks_more).mp done with ⟨asked, -, rfl⟩ | ⟨first, later, middle, -, one, others, -⟩
    · cases rest with
      | nil => rfl
      | cons c rest => cases asked
    · have shorter := takes _ _ _ one
      exact ih (by omega) others

/-! ### Types -/

section Types

variable {type : Scan (List Part)}

theorem lossless_typeArgument (types : Lossless type) : Lossless (typeArgument whole type) := by
  intro text found rest done
  obtain ⟨c, -, done⟩ := peek_bind_eq_ok.mp done
  split_ifs at done with star sign
  · exact lossless_expect _ _ _ _ done
  · obtain ⟨mark, after, marked, done⟩ := run_bind_eq_ok.mp done
    obtain ⟨bound, last, read, done⟩ := run_bind_eq_ok.mp done
    obtain ⟨rfl, rfl⟩ := run_pure_eq_ok.mp done
    rw [lossless_expect _ _ _ _ marked, types _ _ _ read, written_append, List.append_assoc]
  · exact types _ _ _ done

theorem lossless_typeArguments (types : Lossless type) : Lossless (typeArguments whole limit type) := by
  intro text found rest done
  obtain ⟨c, -, done⟩ := peek_bind_eq_ok.mp done
  split_ifs at done with opens
  · obtain ⟨opening, first, opened, done⟩ := run_bind_eq_ok.mp done
    obtain ⟨arguments, second, read, done⟩ := run_bind_eq_ok.mp done
    obtain ⟨closing, third, closed, done⟩ := run_bind_eq_ok.mp done
    obtain ⟨rfl, rfl⟩ := run_pure_eq_ok.mp done
    have inside := lossless_items (looks_before '>') (lossless_typeArgument types) limit _ _ _ read
    rw [lossless_expect _ _ _ _ opened, inside, lossless_expect _ _ _ _ closed]
    simp only [written_append, List.append_assoc]
  · obtain ⟨rfl, rfl⟩ := run_pure_eq_ok.mp done
    rfl

theorem lossless_suffixes (types : Lossless type) (count : Nat) (around : List Char) :
    Lossless (suffixes whole limit type count around) := by
  induction count generalizing around with
  | zero =>
    intro text found rest done
    cases done
    rfl
  | succ count ih =>
    intro text found rest done
    obtain ⟨c, -, done⟩ := peek_bind_eq_ok.mp done
    split_ifs at done with dot
    · obtain ⟨mark, first, marked, done⟩ := run_bind_eq_ok.mp done
      obtain ⟨name, second, named, done⟩ := run_bind_eq_ok.mp done
      obtain ⟨arguments, third, read, done⟩ := run_bind_eq_ok.mp done
      obtain ⟨later, fourth, others, done⟩ := run_bind_eq_ok.mp done
      obtain ⟨rfl, rfl⟩ := run_pure_eq_ok.mp done
      rw [lossless_expect _ _ _ _ marked, append_of_readUntil named, lossless_typeArguments types _ _ _ read,
        ih _ _ _ _ others]
      simp only [written_append, written_inner, List.append_assoc]
    · obtain ⟨rfl, rfl⟩ := run_pure_eq_ok.mp done
      rfl

theorem lossless_classType (types : Lossless type) : Lossless (classType whole limit type) := by
  intro text found rest done
  obtain ⟨opening, first, opened, done⟩ := run_bind_eq_ok.mp done
  obtain ⟨name, second, named, done⟩ := run_bind_eq_ok.mp done
  obtain ⟨arguments, third, read, done⟩ := run_bind_eq_ok.mp done
  obtain ⟨later, fourth, others, done⟩ := run_bind_eq_ok.mp done
  obtain ⟨closing, last, closed, done⟩ := run_bind_eq_ok.mp done
  obtain ⟨rfl, rfl⟩ := run_pure_eq_ok.mp done
  rw [lossless_expect _ _ _ _ opened, append_of_readUntil named, lossless_typeArguments types _ _ _ read,
    lossless_suffixes types limit name _ _ _ others, lossless_expect _ _ _ _ closed]
  simp only [written_append, written_outer, List.append_assoc]

end Types

/-- **A type** is written in its parts, by induction over how deep types nest. -/
theorem lossless_typeAt (depth : Nat) : Lossless (typeAt whole limit depth) := by
  induction depth with
  | zero =>
    intro text found rest done
    cases done
  | succ depth ih =>
    intro text found rest done
    obtain ⟨c, -, done⟩ := peek_bind_eq_ok.mp done
    split_ifs at done with base array variable_ object
    · exact lossless_expect _ _ _ _ done
    · obtain ⟨mark, first, marked, done⟩ := run_bind_eq_ok.mp done
      obtain ⟨element, last, read, done⟩ := run_bind_eq_ok.mp done
      obtain ⟨rfl, rfl⟩ := run_pure_eq_ok.mp done
      rw [lossless_expect _ _ _ _ marked, ih _ _ _ read, written_append, List.append_assoc]
    · obtain ⟨opening, first, opened, done⟩ := run_bind_eq_ok.mp done
      obtain ⟨name, second, named, done⟩ := run_bind_eq_ok.mp done
      obtain ⟨closing, last, closed, done⟩ := run_bind_eq_ok.mp done
      obtain ⟨rfl, rfl⟩ := run_pure_eq_ok.mp done
      rw [lossless_expect _ _ _ _ opened, append_of_readUntil named, lossless_expect _ _ _ _ closed]
      simp only [written_append, written_plain, List.append_assoc]
    · exact lossless_classType ih _ _ _ done

theorem lossless_type : Lossless (type whole limit) :=
  lossless_typeAt (limit + 1)

/-- Every type starts with a character that no renaming changes. -/
theorem exists_of_type (done : type whole limit text = .ok (found, rest)) : ∃ c more, found = .plain [c] :: more := by
  rw [type, typeAt, peek_bind_eq_ok] at done
  obtain ⟨c, -, done⟩ := done
  split_ifs at done with base array variable_ object
  · exact ⟨c, [], (expect_eq_ok.mp done).1⟩
  · obtain ⟨mark, first, marked, done⟩ := run_bind_eq_ok.mp done
    obtain ⟨element, last, -, done⟩ := run_bind_eq_ok.mp done
    rw [← (run_pure_eq_ok.mp done).1, (expect_eq_ok.mp marked).1]
    exact ⟨_, _, rfl⟩
  · obtain ⟨opening, first, opened, done⟩ := run_bind_eq_ok.mp done
    obtain ⟨name, second, -, done⟩ := run_bind_eq_ok.mp done
    obtain ⟨closing, last, -, done⟩ := run_bind_eq_ok.mp done
    rw [← (run_pure_eq_ok.mp done).1, (expect_eq_ok.mp opened).1]
    exact ⟨_, _, rfl⟩
  · obtain ⟨opening, first, opened, done⟩ := run_bind_eq_ok.mp done
    obtain ⟨name, second, -, done⟩ := run_bind_eq_ok.mp done
    obtain ⟨arguments, third, -, done⟩ := run_bind_eq_ok.mp done
    obtain ⟨later, fourth, -, done⟩ := run_bind_eq_ok.mp done
    obtain ⟨closing, last, -, done⟩ := run_bind_eq_ok.mp done
    rw [← (run_pure_eq_ok.mp done).1, (expect_eq_ok.mp opened).1]
    exact ⟨_, _, rfl⟩

theorem length_of_type (done : type whole limit text = .ok (found, rest)) : rest.length < text.length := by
  obtain ⟨c, more, rfl⟩ := exists_of_type done
  rw [lossless_type _ _ _ done, written_plain, List.singleton_append, List.cons_append, List.length_cons,
    List.length_append]
  omega

/-! ### Whole signatures -/

/-- A mark and a type. -/
theorem lossless_marked (c : Char) : Lossless (do
    let mark ← expect whole c
    return mark ++ (← type whole limit)) := by
  intro text found rest done
  obtain ⟨mark, first, marked, done⟩ := run_bind_eq_ok.mp done
  obtain ⟨bound, last, read, done⟩ := run_bind_eq_ok.mp done
  obtain ⟨rfl, rfl⟩ := run_pure_eq_ok.mp done
  rw [lossless_expect _ _ _ _ marked, lossless_type _ _ _ read, written_append, List.append_assoc]

theorem lossless_typeParameter : Lossless (typeParameter whole limit) := by
  intro text found rest done
  obtain ⟨name, first, named, done⟩ := run_bind_eq_ok.mp done
  split_ifs at done with unnamed
  obtain ⟨mark, second, marked, done⟩ := run_bind_eq_ok.mp done
  obtain ⟨c, -, done⟩ := peek_bind_eq_ok.mp done
  -- the class bound may be left out
  obtain ⟨bound, third, bounded, interfaces, last, others, done⟩ : ∃ bound third, second = written bound ++ third ∧
      ∃ interfaces last, items (next ':') (do
          let mark ← expect whole ':'
          return mark ++ (← type whole limit)) limit third = .ok (interfaces, last) ∧
        (pure (.plain name :: (mark ++ bound ++ interfaces)) : Scan (List Part)) last = .ok (found, rest) := by
    split_ifs at done with starts
    · obtain ⟨bound, third, read, done⟩ := run_bind_eq_ok.mp done
      exact ⟨bound, third, lossless_type _ _ _ read, run_bind_eq_ok.mp done⟩
    · exact ⟨[], second, rfl, run_bind_eq_ok.mp done⟩
  obtain ⟨rfl, rfl⟩ := run_pure_eq_ok.mp done
  have later := lossless_items (looks_next ':') (lossless_marked ':') limit _ _ _ others
  rw [append_of_readUntil named, lossless_expect _ _ _ _ marked, bounded, later]
  simp only [written_append, written_plain, List.append_assoc]

theorem lossless_typeParameters : Lossless (typeParameters whole limit) := by
  intro text found rest done
  obtain ⟨answer, between, asked, done⟩ := run_bind_eq_ok.mp done
  rw [looks_next '<' _ _ _ asked] at done
  split_ifs at done with opens
  · obtain ⟨opening, first, opened, done⟩ := run_bind_eq_ok.mp done
    obtain ⟨parameters, second, read, done⟩ := run_bind_eq_ok.mp done
    obtain ⟨closing, third, closed, done⟩ := run_bind_eq_ok.mp done
    obtain ⟨rfl, rfl⟩ := run_pure_eq_ok.mp done
    have inside := lossless_items (looks_before '>') lossless_typeParameter limit _ _ _ read
    rw [lossless_expect _ _ _ _ opened, inside, lossless_expect _ _ _ _ closed]
    simp only [written_append, List.append_assoc]
  · obtain ⟨rfl, rfl⟩ := run_pure_eq_ok.mp done
    rfl

theorem lossless_methodTypes : Lossless (methodTypes whole limit) := by
  intro text found rest done
  obtain ⟨opening, first, opened, done⟩ := run_bind_eq_ok.mp done
  obtain ⟨parameters, second, read, done⟩ := run_bind_eq_ok.mp done
  obtain ⟨closing, third, closed, done⟩ := run_bind_eq_ok.mp done
  obtain ⟨result, fourth, returned, done⟩ := run_bind_eq_ok.mp done
  obtain ⟨exceptions, last, thrown, done⟩ := run_bind_eq_ok.mp done
  obtain ⟨rfl, rfl⟩ := run_pure_eq_ok.mp done
  have inside := lossless_items (looks_before ')') lossless_type limit _ _ _ read
  have behind := lossless_items (looks_next '^') (lossless_marked '^') limit _ _ _ thrown
  rw [lossless_expect _ _ _ _ opened, inside, lossless_expect _ _ _ _ closed, lossless_type _ _ _ returned, behind]
  simp only [written_append, List.append_assoc]

/-- **What is left behind a complete method signature.** A text that is none has nothing behind it. -/
def leftover (signature : String) : List Char :=
  match typeParameters signature signature.length signature.toList with
  | .ok (_, '(' :: types) =>
    match methodTypes signature signature.length ('(' :: types) with
    | .ok (_, rest) => rest
    | .error _ => []
  | _ => []

/-- **A signature** is written in its parts, up to what is left behind it. -/
theorem append_of_parse {signature : String} (parsed : parse signature = .ok found) :
    signature.toList = written found ++ leftover signature := by
  obtain ⟨⟨all, rest⟩, done, same⟩ := bind_eq_ok.mp parsed
  cases same
  obtain ⟨parameters, middle, first, done⟩ := run_bind_eq_ok.mp done
  have front := lossless_typeParameters _ _ _ first
  obtain ⟨answer, between, asked, done⟩ := run_bind_eq_ok.mp done
  obtain ⟨rfl, rfl⟩ := next_eq_ok.mp asked
  split_ifs at done with method
  · obtain ⟨types, last, second, done⟩ := run_bind_eq_ok.mp done
    obtain ⟨rfl, rfl⟩ := run_pure_eq_ok.mp done
    obtain ⟨later, rfl⟩ := List.head?_eq_some_iff.mp (beq_iff_eq.mp method)
    have left : leftover signature = last := by
      unfold leftover
      rw [first]
      simp only [second]
    rw [left, front, lossless_methodTypes _ _ _ second, written_append, List.append_assoc]
  · obtain ⟨types, last, second, done⟩ := run_bind_eq_ok.mp done
    obtain ⟨rfl, rfl⟩ := run_pure_eq_ok.mp done
    have enough : between.length ≤ signature.length := by
      rw [← String.length_toList, front, List.length_append]
      omega
    have left : leftover signature = [] := by
      unfold leftover
      rw [first]
      split
      next types same =>
        cases same
        exact absurd rfl method
      next => rfl
    have behind := lossless_items looks_more lossless_type signature.length _ _ _ second
    rw [nil_of_items_more (fun _ _ _ => length_of_type) enough second] at behind
    rw [left, front, behind, written_append, List.append_assoc]

/-! ### Classes that are not renamed -/

/-- The classes that a part asks about. -/
def Part.classNames : Part → List String
  | plain _ => []
  | outer name => [String.ofList name]
  | inner around full => [String.ofList around, String.ofList full]

/-- The classes that a signature asks about. -/
def classNames (signature : String) : List String :=
  match parse signature with
  | .ok found => found.flatMap Part.classNames
  | .error _ => []

variable {rename : String → Option String}

/-- A part in which all classes keep their names stays as it is. -/
theorem Part.render_of_kept {part : Part} (kept : ∀ name ∈ part.classNames, renameOrKeep rename name = name) :
    part.render rename = part.render fun _ => none := by
  have same {name : List Char} (keeps : renameOrKeep rename (String.ofList name) = String.ofList name) :
      newName rename name = newName (fun _ => none) name := by
    rw [newName_none, newName, keeps, String.toList_ofList]
  cases part with
  | plain text => rfl
  | outer name => exact same (kept _ List.mem_cons_self)
  | inner around full =>
    obtain ⟨keptAround, keptFull⟩ := List.forall_mem_cons.mp kept
    rw [Part.render, Part.render, same keptAround, same (keptFull _ List.mem_cons_self)]

/-- **A signature in which all classes keep their names** loses what is left behind it and nothing else. -/
theorem append_of_rename {signature new : String}
    (kept : ∀ name ∈ classNames signature, renameOrKeep rename name = name)
    (renamed : Signature.rename rename signature = .ok new) :
    signature.toList = new.toList ++ leftover signature := by
  obtain ⟨found, parsed, same⟩ := bind_eq_ok.mp renamed
  rw [classNames, parsed] at kept
  have plain : found.flatMap (Part.render rename) = written found := by
    refine List.flatMap_congr fun part member => ?_
    exact part.render_of_kept fun name asked => kept name (List.mem_flatMap.mpr ⟨part, member, asked⟩)
  rw [← pure_eq_ok.mp same, String.toList_ofList, plain]
  exact append_of_parse parsed

/-- A complete signature in which all classes keep their names stays as it is, if it is one. -/
theorem rename_of_kept {signature : String} (complete : leftover signature = [])
    (kept : ∀ name ∈ classNames signature, renameOrKeep rename name = name) :
    Signature.rename rename signature = .ok signature ∨
      ∃ cause, Signature.rename rename signature = .error cause ∧ parse signature = .error cause := by
  cases parsed : parse signature with
  | error cause => exact .inr ⟨cause, by rw [Signature.rename, parsed]; rfl, rfl⟩
  | ok found =>
    have renamed : Signature.rename rename signature = .ok (String.ofList (found.flatMap (Part.render rename))) := by
      rw [Signature.rename, parsed]
      rfl
    have same := append_of_rename kept renamed
    rw [complete, List.append_nil] at same
    rw [renamed, ← String.toList_injective same]
    exact .inl rfl

/-! ### Renaming nothing -/

/-- The types of a method start with their opening parenthesis. -/
theorem mem_of_methodTypes (done : methodTypes whole limit text = .ok (found, rest)) : '(' ∈ written found := by
  obtain ⟨opening, first, opened, done⟩ := run_bind_eq_ok.mp done
  obtain ⟨parameters, second, -, done⟩ := run_bind_eq_ok.mp done
  obtain ⟨closing, third, -, done⟩ := run_bind_eq_ok.mp done
  obtain ⟨result, fourth, -, done⟩ := run_bind_eq_ok.mp done
  obtain ⟨exceptions, last, -, done⟩ := run_bind_eq_ok.mp done
  obtain ⟨rfl, rfl⟩ := run_pure_eq_ok.mp done
  obtain ⟨rfl, -⟩ := expect_eq_ok.mp opened
  exact List.mem_cons_self

/-- What is left behind a signature stands behind the types of a method. -/
theorem mem_of_leftover {signature : String} (parsed : parse signature = .ok found) (some : leftover signature ≠ []) :
    '(' ∈ written found := by
  have whole := append_of_parse parsed
  unfold leftover at some whole
  split at some
  next parameters types read =>
    split at some
    next method rest readToo =>
      rw [read] at whole
      simp only [readToo] at whole
      have front : signature.toList = written parameters ++ written method ++ rest := by
        rw [List.append_assoc, ← lossless_methodTypes _ _ _ readToo]
        exact lossless_typeParameters _ _ _ read
      rw [List.append_cancel_right (whole.symm.trans front)]
      exact List.mem_append_right _ (mem_of_methodTypes readToo)
    next => exact absurd rfl some
  next => exact absurd rfl some

/-- **Renaming nothing** fails or keeps a signature up to what is left behind it, and only behind the signature of a
method something is left. -/
theorem rename_nothing (signature : String) :
    (∃ cause, Signature.rename (fun _ => none) signature = .error cause) ∨
      ∃ kept, Signature.rename (fun _ => none) signature = .ok kept ∧
        signature.toList = kept.toList ++ leftover signature ∧ (leftover signature ≠ [] → '(' ∈ kept.toList) := by
  cases parsed : parse signature with
  | error cause =>
    refine .inl ⟨cause, ?_⟩
    rw [Signature.rename, parsed]
    rfl
  | ok found =>
    refine .inr ⟨String.ofList (written found), ?_, ?_, ?_⟩
    · rw [Signature.rename, parsed]
      rfl
    · rw [String.toList_ofList]
      exact append_of_parse parsed
    · rw [String.toList_ofList]
      exact mem_of_leftover parsed

/-- A signature can lose what is left behind it. -/
theorem not_forall_rename_nothing : ¬∀ signature : String,
    (∃ cause, Signature.rename (fun _ => none) signature = .error cause) ∨
      Signature.rename (fun _ => none) signature = .ok signature := by
  intro all
  have shortened : Signature.rename (fun _ => none) "()VI" = .ok "()V" := by
    have read : parts "()VI" 4 "()VI".toList = .ok ([.plain ['('], .plain [')'], .plain ['V']], ['I']) := rfl
    rw [Signature.rename, parse, show "()VI".length = 4 from rfl, read]
    rfl
  rcases all "()VI" with ⟨cause, failed⟩ | same
  · rw [shortened] at failed
    cases failed
  · rw [shortened] at same
    exact absurd (Except.ok.inj same) (by decide)

end JarRename.Signature
