import JarRename.Proofs.Signature.Tree
import Mathlib.Data.List.Chain

/-!
**The text of a tree is read as its parts.**

The readers take the text of a tree apart into the parts of the tree, whatever follows it.

* `Reads`, `ReadsTypes`: a reader that finds a value, or the parts of all types up to a size;
* `reads_typeAt`: a type is read as its parts, by induction over how deep types nest;
* `parse_toText`: a whole signature is read as its parts, if its type parameters are separated.
-/

namespace JarRename.Signature

/-! ### Reading characters and names -/

variable {whole : String} {limit : Nat} {text rest : List Char}

/-- A reader that finds a value in a text, whatever follows it. -/
def Reads {α : Type} (scan : Scan α) (text : List Char) (value : α) : Prop :=
  ∀ rest, scan (text ++ rest) = .ok (value, rest)

theorem expect_self (c : Char) (rest : List Char) : expect whole c (c :: rest) = .ok ([.plain [c]], rest) :=
  expect_eq_ok.mpr ⟨rfl, rfl⟩

/-- A name is read up to a character that ends it. -/
theorem readUntil_name {stops : List Char} (name : Name stops) {stop : Char} (ends : stop ∈ stops) (rest : List Char) :
    readUntil whole stops (name.chars ++ stop :: rest) = .ok (name.chars, stop :: rest) := by
  have before : ∀ c ∈ name.chars, (!stops.contains c) = true := by
    intro c member
    simpa using name.plain c member
  have stopped : (!stops.contains stop) = false := by simpa using ends
  have left : (name.chars ++ stop :: rest).dropWhile (fun c => !stops.contains c) = stop :: rest := by
    rw [List.dropWhile_append_of_pos before, List.dropWhile_cons_of_neg (by rw [stopped]; exact Bool.false_ne_true)]
  have taken : (name.chars ++ stop :: rest).takeWhile (fun c => !stops.contains c) = name.chars := by
    rw [List.takeWhile_append_of_pos before, List.takeWhile_cons_of_neg (by rw [stopped]; exact Bool.false_ne_true),
      List.append_nil]
  unfold readUntil
  rw [left, taken]

/-! ### Reading types -/

/-- Nothing more is read as an item, if the test says so. -/
theorem items_stop {test : Scan Bool} {item : Scan (List Part)} (stops : test text = .ok (false, text)) (count : Nat) :
    items test item count text = .ok ([], text) := by
  cases count with
  | zero => rfl
  | succ count =>
    rw [items, run_bind_of_ok stops]
    rfl

theorem items_step {test : Scan Bool} {item : Scan (List Part)} {first later : List Part} {middle : List Char}
    {count : Nat} (goesOn : test text = .ok (true, text)) (one : item text = .ok (first, middle))
    (others : items test item count middle = .ok (later, rest)) :
    items test item (count + 1) text = .ok (first ++ later, rest) := by
  rw [items, run_bind_of_ok goesOn, if_pos rfl, run_bind_of_ok one, run_bind_of_ok others]
  rfl

theorem before_cons {c stop : Char} (other : c ≠ stop) (rest : List Char) :
    before whole stop (c :: rest) = .ok (true, c :: rest) := by
  show Except.ok (c != stop, c :: rest) = _
  rw [bne_iff_ne.mpr other]

theorem before_self (stop : Char) (rest : List Char) :
    before whole stop (stop :: rest) = .ok (false, stop :: rest) := by
  show Except.ok (stop != stop, stop :: rest) = _
  rw [bne_self_eq_false]

/-- A reader of types finds the parts of every type of at most so many characters. -/
def ReadsTypes (type : Scan (List Part)) (size : Nat) : Prop :=
  ∀ tree : Generic, tree.chars.length ≤ size → Reads type tree.chars tree.parts

/-- The name of a class is read up to its arguments, a suffix or its end. -/
theorem readUntil_word (name : ClassWord) (arguments : Arguments) {c : Char} (ends : c = '.' ∨ c = ';')
    (rest : List Char) :
    readUntil whole ['<', '.', ';'] (name.chars ++ (enclosed '<' '>' arguments.chars ++ c :: rest)) =
      .ok (name.chars, enclosed '<' '>' arguments.chars ++ c :: rest) := by
  rcases arguments.none_or with rfl | ⟨someChars, -⟩
  · exact readUntil_name name (by rcases ends with rfl | rfl <;> decide) rest
  · rw [enclosed_of_ne_nil someChars]
    exact readUntil_name name (by decide) _

section Types

variable {type : Scan (List Part)} {size : Nat}

theorem peek_cons (c : Char) (rest : List Char) : peek whole (c :: rest) = .ok (c, c :: rest) := rfl

/-- A mark and a type. -/
theorem typeArgument_marked {c : Char} (mark : c = '+' ∨ c = '-') {found : List Part}
    (read : type text = .ok (found, rest)) : typeArgument whole type (c :: text) = .ok (.plain [c] :: found, rest) := by
  have notAny : c ≠ '*' := by
    rcases mark with rfl | rfl <;> decide
  rw [typeArgument, run_bind_of_ok (peek_cons c text), if_neg notAny, if_pos (by simpa using mark),
    run_bind_of_ok (expect_self c text), run_bind_of_ok read]
  rfl

/-- One type argument with a type. -/
theorem typeArgument_type (types : ReadsTypes type size) (variance : Variance) {tree : Generic}
    (fits : tree.chars.length ≤ size) (rest : List Char) :
    typeArgument whole type (variance.chars ++ (tree.chars ++ rest)) =
      .ok (variance.chars.map (fun c => .plain [c]) ++ tree.parts, rest) := by
  have read := types tree fits rest
  cases variance with
  | equal =>
    obtain ⟨c, tail, start, starts⟩ := tree.exists_start
    rw [start] at read ⊢
    have notAny := ne_of_startsType starts (d := '*') rfl
    have notBelow := ne_of_startsType starts (d := '+') rfl
    have notAbove := ne_of_startsType starts (d := '-') rfl
    show typeArgument whole type (c :: (tail ++ rest)) = _
    rw [typeArgument, run_bind_of_ok (peek_cons c _), if_neg notAny, if_neg (by simp [notBelow, notAbove])]
    exact read
  | below => exact typeArgument_marked (.inl rfl) read
  | above => exact typeArgument_marked (.inr rfl) read

/-- Type arguments one after the other, up to their closing bracket. -/
theorem items_arguments (types : ReadsTypes type size) (rest : List Char) :
    ∀ (arguments : Arguments) (count : Nat), arguments.chars.length ≤ size → arguments.chars.length ≤ count →
      items (before whole '>') (typeArgument whole type) count (arguments.chars ++ '>' :: rest) =
        .ok (arguments.parts, '>' :: rest)
  | .none, count, _, _ => items_stop (before_self '>' rest) count
  | .any later, 0, _, enough => by cases enough
  | .any later, count + 1, fits, enough => by
    rw [Arguments.chars, List.length_cons] at fits enough
    rw [Arguments.chars, Arguments.parts]
    have others := items_arguments types rest later count (by omega) (by omega)
    have other : '*' ≠ '>' := by decide
    exact items_step (before_cons other _) rfl others
  | .type variance tree later, 0, _, enough => by
    obtain ⟨c, tail, start, -⟩ := tree.exists_start
    rw [Arguments.chars, start, List.length_append] at enough
    simp at enough
  | .type variance tree later, count + 1, fits, enough => by
    obtain ⟨c, tail, start, starts⟩ := tree.exists_start
    have taken : tree.chars.length = tail.length + 1 := by rw [start, List.length_cons]
    simp only [Arguments.chars, List.length_append] at fits enough
    have others := items_arguments types rest later count (by omega) (by omega)
    have small : tree.chars.length ≤ size := by omega
    rw [Arguments.chars, Arguments.parts, List.append_assoc, List.append_assoc]
    refine items_step ?_ (typeArgument_type types variance small _) others
    cases variance with
    | equal =>
      rw [start]
      exact before_cons (ne_of_startsType starts rfl) _
    | below => exact before_cons (show '+' ≠ '>' by decide) _
    | above => exact before_cons (show '-' ≠ '>' by decide) _

/-- The type arguments of a class with their brackets, or none in front of another character. -/
theorem typeArguments_enclosed (types : ReadsTypes type size) (arguments : Arguments)
    (fits : arguments.chars.length ≤ size) (enough : arguments.chars.length ≤ limit) {c : Char} (other : c ≠ '<')
    (rest : List Char) :
    typeArguments whole limit type (enclosed '<' '>' arguments.chars ++ c :: rest) =
      .ok (enclosed (.plain ['<']) (.plain ['>']) arguments.parts, c :: rest) := by
  rcases arguments.none_or with rfl | ⟨someChars, someParts⟩
  · show typeArguments whole limit type (c :: rest) = _
    rw [typeArguments, run_bind_of_ok (peek_cons c rest), if_neg other]
    rfl
  · rw [enclosed_of_ne_nil someChars, enclosed_of_ne_nil someParts, List.cons_append, List.append_assoc,
      List.singleton_append, typeArguments, run_bind_of_ok (peek_cons _ _), if_pos rfl,
      run_bind_of_ok (expect_self _ _), run_bind_of_ok (items_arguments types _ arguments limit fits enough),
      run_bind_of_ok (expect_self _ _)]
    rfl

/-- The suffixes of a class one after the other, up to its end. -/
theorem suffixes_chars (types : ReadsTypes type size) (rest : List Char) :
    ∀ (tree : Suffixes) (count : Nat) (around : List Char), tree.chars.length ≤ size → tree.chars.length ≤ limit →
      tree.chars.length ≤ count →
      suffixes whole limit type count around (tree.chars ++ ';' :: rest) = .ok (tree.parts around, ';' :: rest)
  | .none, 0, _, _, _, _ => rfl
  | .none, count + 1, _, _, _, _ => rfl
  | .suffix name arguments later, 0, _, _, _, enough => by
    cases enough
  | .suffix name arguments later, count + 1, around, fits, wide, enough => by
    obtain ⟨c, tail, ended, ends⟩ := later.exists_end rest
    have other : c ≠ '<' := by
      rcases ends with rfl | rfl <;> decide
    have inside : arguments.chars.length ≤ (enclosed '<' '>' arguments.chars).length := length_le_enclosed _ _ _
    simp only [Suffixes.chars, List.length_cons, List.length_append] at fits wide enough
    have others := suffixes_chars types rest later count (around ++ '$' :: name.chars) (by omega) (by omega) (by omega)
    rw [ended] at others
    rw [Suffixes.chars, Suffixes.parts, List.cons_append, List.append_assoc, List.append_assoc, ended, suffixes,
      run_bind_of_ok (peek_cons _ _), if_pos rfl, run_bind_of_ok (expect_self _ _),
      run_bind_of_ok (readUntil_word name arguments ends tail),
      run_bind_of_ok (typeArguments_enclosed types arguments (by omega) (by omega) other tail), run_bind_of_ok others]
    rfl

/-- A class with its arguments and suffixes. -/
theorem classType_object (types : ReadsTypes type size) (name : ClassWord) (arguments : Arguments) (nested : Suffixes)
    (fits : (Generic.object name arguments nested).chars.length ≤ size + 1)
    (wide : (Generic.object name arguments nested).chars.length ≤ limit) :
    Reads (classType whole limit type) (Generic.object name arguments nested).chars
      (Generic.object name arguments nested).parts := by
  intro rest
  obtain ⟨c, tail, ended, ends⟩ := nested.exists_end rest
  have other : c ≠ '<' := by
    rcases ends with rfl | rfl <;> decide
  have inside : arguments.chars.length ≤ (enclosed '<' '>' arguments.chars).length := length_le_enclosed _ _ _
  simp only [Generic.chars, List.length_cons, List.length_append] at fits wide
  have later : suffixes whole limit type limit name.chars (c :: tail) = .ok (nested.parts name.chars, ';' :: rest) := by
    rw [← ended]
    exact suffixes_chars types rest nested limit name.chars (by omega) (by omega) (by omega)
  have split : (Generic.object name arguments nested).chars ++ rest =
      'L' :: (name.chars ++ (enclosed '<' '>' arguments.chars ++ c :: tail)) := by
    simp only [Generic.chars, List.cons_append, List.append_assoc, List.nil_append, ended]
  rw [split, Generic.parts, classType, run_bind_of_ok (expect_self _ _),
    run_bind_of_ok (readUntil_word name arguments ends tail),
    run_bind_of_ok (typeArguments_enclosed types arguments (by omega) (by omega) other tail), run_bind_of_ok later,
    run_bind_of_ok (expect_self _ _)]
  rfl

end Types

/-- **A type is read as its parts**, by induction over how deep types nest: a type inside another has fewer
characters. -/
theorem reads_typeAt (depth size : Nat) (deep : size ≤ depth) (wide : size ≤ limit) :
    ReadsTypes (typeAt whole limit depth) size := by
  induction depth generalizing size with
  | zero =>
    intro tree fits
    obtain ⟨c, tail, start, -⟩ := tree.exists_start
    rw [start, List.length_cons] at fits
    omega
  | succ depth ih =>
    have inner : ReadsTypes (typeAt whole limit depth) (size - 1) := ih (size - 1) (by omega) (by omega)
    intro tree fits
    cases tree with
    | base type =>
      intro rest
      rw [Generic.chars, Generic.parts, List.singleton_append, typeAt, run_bind_of_ok (peek_cons _ _),
        if_pos (by rw [BaseType.ofLetter?_letter]; rfl)]
      exact expect_self _ _
    | array element =>
      intro rest
      rw [Generic.chars, List.length_cons] at fits
      rw [Generic.chars, Generic.parts, List.cons_append, typeAt, run_bind_of_ok (peek_cons _ _), if_neg (by decide),
        if_pos rfl, run_bind_of_ok (expect_self _ _), run_bind_of_ok (inner element (by omega) rest)]
      rfl
    | typeVariable name =>
      intro rest
      rw [Generic.chars, Generic.parts, List.cons_append, List.append_assoc, List.singleton_append, typeAt,
        run_bind_of_ok (peek_cons _ _), if_neg (by decide), if_neg (by decide), if_pos rfl,
        run_bind_of_ok (expect_self _ _), run_bind_of_ok (readUntil_name name (by decide) rest),
        run_bind_of_ok (expect_self _ _)]
      rfl
    | object name arguments nested =>
      have reads : Reads (classType whole limit (typeAt whole limit depth)) (Generic.object name arguments nested).chars
          (Generic.object name arguments nested).parts :=
        classType_object inner name arguments nested (by omega) (by omega)
      intro rest
      have read := reads rest
      rw [Generic.chars, List.cons_append] at read ⊢
      rw [typeAt, run_bind_of_ok (peek_cons _ _), if_neg (by decide), if_neg (by decide), if_neg (by decide),
        if_pos rfl]
      exact read

theorem reads_type (whole : String) (limit : Nat) : ReadsTypes (type whole limit) limit :=
  reads_typeAt (limit + 1) limit (by omega) (Nat.le_refl limit)

/-! ### Reading type parameters -/

/-- Items that are read one by one, up to where the test says that there are no more. -/
theorem items_flatMap {α : Type} {test : Scan Bool} {item : Scan (List Part)} {chars : α → List Char}
    {parts : α → List Part} (some : ∀ value, chars value ≠ [])
    (goesOn : ∀ value rest, test (chars value ++ rest) = .ok (true, chars value ++ rest)) {size : Nat}
    (reads : ∀ value, (chars value).length ≤ size → Reads item (chars value) (parts value)) {values : List α}
    {rest : List Char} {count : Nat} (fits : (values.flatMap chars).length ≤ size)
    (enough : (values.flatMap chars).length ≤ count) (stops : test rest = .ok (false, rest)) :
    items test item count (values.flatMap chars ++ rest) = .ok (values.flatMap parts, rest) := by
  induction values generalizing count with
  | nil => exact items_stop stops count
  | cons value values ih =>
    have taken := List.length_pos_iff.mpr (some value)
    rw [List.flatMap_cons, List.length_append] at fits enough
    obtain ⟨count, rfl⟩ : ∃ k, count = k + 1 := ⟨count - 1, by omega⟩
    rw [List.flatMap_cons, List.flatMap_cons, List.append_assoc]
    exact items_step (goesOn value _) (reads value (by omega) _) (ih (by omega) (by omega))

/-- The reader of a mark and a type behind it. -/
abbrev markedType (whole : String) (limit : Nat) (mark : Char) : Scan (List Part) := do
  let mark ← expect whole mark
  return mark ++ (← type whole limit)

theorem reads_markedType (mark : Char) {tree : Generic} (fits : tree.chars.length ≤ limit) :
    Reads (markedType whole limit mark) (tree.markedChars mark) (tree.markedParts mark) := by
  intro rest
  rw [Generic.markedChars, List.cons_append, markedType, run_bind_of_ok (expect_self _ _),
    run_bind_of_ok (reads_type whole limit tree fits rest)]
  rfl

theorem next_self (c : Char) (rest : List Char) : next c (c :: rest) = .ok (true, c :: rest) :=
  next_eq_ok.mpr ⟨by simp, rfl⟩

theorem next_other {c d : Char} (other : d ≠ c) (rest : List Char) : next c (d :: rest) = .ok (false, d :: rest) :=
  next_eq_ok.mpr ⟨by simp [other], rfl⟩

/-- Types behind marks, up to another character or the end. -/
theorem items_marked (whole : String) (mark : Char) {types : List Generic} {rest : List Char}
    (ended : next mark rest = .ok (false, rest))
    (fits : (types.flatMap (Generic.markedChars mark)).length ≤ limit) :
    items (next mark) (markedType whole limit mark) limit (types.flatMap (Generic.markedChars mark) ++ rest) =
      .ok (types.flatMap (Generic.markedParts mark), rest) := by
  refine items_flatMap (fun _ => List.cons_ne_nil _ _) (fun _ _ => next_self _ _) (fun tree small => ?_) fits fits ended
  exact reads_markedType mark (Nat.le_of_succ_le small)

/-- A class bound starts as class bounds do. -/
theorem Generic.IsReference.exists_start {tree : Generic} (reference : tree.IsReference) :
    ∃ c tail, tree.chars = c :: tail ∧ Parameter.startsBound c = true := by
  cases tree with
  | base type => cases reference
  | array element => exact ⟨'[', _, by rw [chars], rfl⟩
  | typeVariable name => exact ⟨'T', _, by rw [chars], rfl⟩
  | object name arguments suffixes => exact ⟨'L', _, by rw [chars], rfl⟩

/-- A type parameter, in front of a character that is neither a mark nor taken for the start of a bound. -/
theorem typeParameter_chars (parameter : Parameter) (fits : parameter.chars.length ≤ limit) {c : Char}
    (unmarked : c ≠ ':') (clear : parameter.isBounded = true ∨ Parameter.startsBound c = false) (rest : List Char) :
    typeParameter whole limit (parameter.chars ++ c :: rest) = .ok (parameter.parts, c :: rest) := by
  have named : ¬parameter.name.chars.isEmpty = true := by
    rw [List.isEmpty_iff]
    exact parameter.named
  simp only [Parameter.chars, List.length_append, List.length_cons] at fits
  have few : (parameter.interfaces.flatMap (Generic.markedChars ':')).length ≤ limit := by omega
  have interfaces := items_marked whole ':' (next_other unmarked rest) few
  rw [Parameter.chars, Parameter.parts, List.append_assoc, List.cons_append, List.append_assoc, typeParameter,
    run_bind_of_ok (readUntil_name parameter.name (by decide) _), if_neg named, run_bind_of_ok (expect_self _ _)]
  cases bounded : parameter.bound with
  | none =>
    -- what follows the mark is another mark or the character behind the parameter
    obtain ⟨d, tail, start, starts⟩ : ∃ d tail, parameter.interfaces.flatMap (Generic.markedChars ':') ++ c :: rest =
        d :: tail ∧ Parameter.startsBound d = false := by
      cases listed : parameter.interfaces with
      | nil => exact ⟨c, rest, rfl, clear.resolve_left (by simp [Parameter.isBounded, bounded, listed])⟩
      | cons first later => exact ⟨':', _, rfl, rfl⟩
    rw [start] at interfaces
    rw [Option.toList_none, List.flatMap_nil, List.flatMap_nil, List.nil_append, start, run_bind_of_ok (peek_cons _ _),
      if_neg (by rw [← Parameter.startsBound, starts]; exact Bool.false_ne_true),
      run_bind_of_ok (run_pure_eq_ok.mpr ⟨rfl, rfl⟩)]
    exact run_bind_of_ok interfaces
  | some bound =>
    obtain ⟨d, tail, start, starts⟩ := (parameter.reference bound bounded).exists_start
    rw [bounded, Option.toList_some, List.flatMap_singleton] at fits
    have read := reads_type whole limit bound (by omega)
      (parameter.interfaces.flatMap (Generic.markedChars ':') ++ c :: rest)
    rw [Option.toList_some, List.flatMap_singleton, List.flatMap_singleton]
    rw [start, List.cons_append] at read ⊢
    rw [run_bind_of_ok (peek_cons _ _), if_pos (by rw [← Parameter.startsBound, starts]), run_bind_of_ok read]
    exact run_bind_of_ok interfaces

/-- A type parameter starts with its name. -/
theorem Parameter.exists_start (parameter : Parameter) : ∃ c tail, parameter.chars = c :: tail ∧
    parameter.name.chars.head? = some c ∧ c ≠ ':' ∧ c ≠ '>' := by
  obtain ⟨c, tail, spelled⟩ := List.exists_cons_of_ne_nil parameter.named
  refine ⟨c, _, by rw [chars, spelled, List.cons_append], by rw [spelled, List.head?_cons], ?_, ?_⟩
  · rintro rfl
    exact parameter.name.plain ':' (by rw [spelled]; exact List.mem_cons_self) List.mem_cons_self
  · rintro rfl
    exact parameter.opens (by rw [spelled, List.head?_cons])

/-- Type parameters one after the other, up to their closing bracket. -/
theorem items_parameters (rest : List Char) {parameters : List Parameter}
    (separated : parameters.IsChain Parameter.Separates) (fits : (parameters.flatMap Parameter.chars).length ≤ limit)
    {count : Nat} (enough : (parameters.flatMap Parameter.chars).length ≤ count) :
    items (before whole '>') (typeParameter whole limit) count (parameters.flatMap Parameter.chars ++ '>' :: rest) =
      .ok (parameters.flatMap Parameter.parts, '>' :: rest) := by
  induction parameters generalizing count with
  | nil => exact items_stop (before_self '>' rest) count
  | cons parameter later ih =>
    obtain ⟨separates, separated⟩ := List.isChain_cons.mp separated
    obtain ⟨c, tail, start, -, -, other⟩ := parameter.exists_start
    -- the character behind this parameter is the closing bracket or the first of the next name
    obtain ⟨d, behind, follows, unmarked, clear⟩ : ∃ d behind,
        later.flatMap Parameter.chars ++ '>' :: rest = d :: behind ∧ d ≠ ':' ∧
          (parameter.isBounded = true ∨ Parameter.startsBound d = false) := by
      cases later with
      | nil => exact ⟨'>', rest, rfl, by decide, .inr rfl⟩
      | cons second others =>
        obtain ⟨d, nameTail, nextStart, head, unmarked, -⟩ := second.exists_start
        refine ⟨d, _, by rw [List.flatMap_cons, nextStart, List.cons_append, List.cons_append], unmarked, ?_⟩
        exact (separates second rfl).imp_right fun clear => clear d head
    rw [List.flatMap_cons, List.length_append] at fits enough
    have taken : parameter.chars.length = tail.length + 1 := by rw [start, List.length_cons]
    obtain ⟨count, rfl⟩ : ∃ k, count = k + 1 := ⟨count - 1, by omega⟩
    have enoughLater : (later.flatMap Parameter.chars).length ≤ count := by omega
    have others := ih separated (by omega) enoughLater
    rw [follows] at others
    have one : typeParameter whole limit (parameter.chars ++ d :: behind) = .ok (parameter.parts, d :: behind) :=
      typeParameter_chars parameter (by omega) unmarked clear behind
    rw [List.flatMap_cons, List.flatMap_cons, List.append_assoc, follows]
    refine items_step ?_ one others
    rw [start]
    exact before_cons other _

/-- The type parameters of a signature with their brackets, or none in front of another character. -/
theorem typeParameters_enclosed {parameters : List Parameter} (separated : parameters.IsChain Parameter.Separates)
    (fits : (parameters.flatMap Parameter.chars).length ≤ limit) {c : Char} (other : c ≠ '<') (rest : List Char) :
    typeParameters whole limit (enclosed '<' '>' (parameters.flatMap Parameter.chars) ++ c :: rest) =
      .ok (enclosed (.plain ['<']) (.plain ['>']) (parameters.flatMap Parameter.parts), c :: rest) := by
  cases parameters with
  | nil =>
    show typeParameters whole limit (c :: rest) = _
    rw [typeParameters, run_bind_of_ok (next_other other rest)]
    rfl
  | cons parameter later =>
    obtain ⟨d, tail, start, -⟩ := parameter.exists_start
    have someChars : (parameter :: later).flatMap Parameter.chars ≠ [] := by
      rw [List.flatMap_cons, start]
      exact List.cons_ne_nil _ _
    have someParts : (parameter :: later).flatMap Parameter.parts ≠ [] := List.cons_ne_nil _ _
    rw [enclosed_of_ne_nil someChars, enclosed_of_ne_nil someParts, List.cons_append, List.append_assoc,
      List.singleton_append, typeParameters, run_bind_of_ok (next_self _ _), if_pos rfl,
      run_bind_of_ok (expect_self _ _), run_bind_of_ok (items_parameters _ separated fits fits),
      run_bind_of_ok (expect_self _ _)]
    rfl

/-! ### Reading whole signatures -/

/-- Types one after the other, up to where the test says that there are no more. -/
theorem items_types (whole : String) {test : Scan Bool}
    (goesOn : ∀ c rest, startsType c = true → test (c :: rest) = .ok (true, c :: rest))
    {types : List Generic} {rest : List Char} (fits : (types.flatMap Generic.chars).length ≤ limit)
    (stops : test rest = .ok (false, rest)) :
    items test (type whole limit) limit (types.flatMap Generic.chars ++ rest) =
      .ok (types.flatMap Generic.parts, rest) := by
  refine items_flatMap (fun tree => ?_) (fun tree rest => ?_) (reads_type whole limit) fits fits stops
  · obtain ⟨c, tail, start, -⟩ := tree.exists_start
    rw [start]
    exact List.cons_ne_nil _ _
  · obtain ⟨c, tail, start, starts⟩ := tree.exists_start
    rw [start]
    exact goesOn c _ starts

theorem next_nil (c : Char) : next c [] = .ok (false, []) := rfl

/-- The types of a method. -/
theorem methodTypes_chars {arguments exceptions : List Generic} {result : Generic}
    (fits : (arguments.flatMap Generic.chars ++ ')' :: (result.chars ++
      exceptions.flatMap (Generic.markedChars '^'))).length ≤ limit) :
    methodTypes whole limit ('(' :: (arguments.flatMap Generic.chars ++ ')' :: (result.chars ++
        exceptions.flatMap (Generic.markedChars '^')))) =
      .ok (.plain ['('] :: (arguments.flatMap Generic.parts ++ .plain [')'] :: (result.parts ++
        exceptions.flatMap (Generic.markedParts '^'))), []) := by
  simp only [List.length_append, List.length_cons] at fits
  have parameters : items (before whole ')') (type whole limit) limit (arguments.flatMap Generic.chars ++ ')' ::
      (result.chars ++ exceptions.flatMap (Generic.markedChars '^'))) =
        .ok (arguments.flatMap Generic.parts, ')' :: (result.chars ++ exceptions.flatMap (Generic.markedChars '^'))) :=
    items_types whole (fun c rest starts => before_cons (ne_of_startsType starts rfl) rest) (by omega) (before_self _ _)
  have returned := reads_type whole limit result (by omega) (exceptions.flatMap (Generic.markedChars '^'))
  have few : (exceptions.flatMap (Generic.markedChars '^')).length ≤ limit := by omega
  have thrown := items_marked whole '^' (next_nil '^') few
  rw [List.append_nil] at thrown
  rw [methodTypes, run_bind_of_ok (expect_self _ _), run_bind_of_ok parameters, run_bind_of_ok (expect_self _ _),
    run_bind_of_ok returned, run_bind_of_ok thrown]
  simp only [List.cons_append, List.append_assoc]
  rfl

/-- The types of a class or a field, behind its type parameters. -/
theorem parts_types {parameters : List Parameter} (separated : parameters.IsChain Parameter.Separates) (first : Generic)
    (later : List Generic) (fits : (enclosed '<' '>' (parameters.flatMap Parameter.chars) ++
      (first :: later).flatMap Generic.chars).length ≤ limit) :
    parts whole limit
        (enclosed '<' '>' (parameters.flatMap Parameter.chars) ++ (first :: later).flatMap Generic.chars) =
      .ok (enclosed (.plain ['<']) (.plain ['>']) (parameters.flatMap Parameter.parts) ++
        (first :: later).flatMap Generic.parts, []) := by
  have inside := length_le_enclosed '<' '>' (parameters.flatMap Parameter.chars)
  rw [List.length_append] at fits
  obtain ⟨c, tail, start, starts⟩ := first.exists_start
  have types : items more (type whole limit) limit ((first :: later).flatMap Generic.chars) =
      .ok ((first :: later).flatMap Generic.parts, []) := by
    have read : items more (type whole limit) limit ((first :: later).flatMap Generic.chars ++ []) =
        .ok ((first :: later).flatMap Generic.parts, []) := items_types whole (fun _ _ _ => rfl) (by omega) rfl
    rwa [List.append_nil] at read
  have split : (first :: later).flatMap Generic.chars = c :: (tail ++ later.flatMap Generic.chars) := by
    rw [List.flatMap_cons, start, List.cons_append]
  rw [split] at types ⊢
  rw [parts, run_bind_of_ok (typeParameters_enclosed separated (by omega) (ne_of_startsType starts rfl) _),
    run_bind_of_ok (next_other (ne_of_startsType starts rfl) _), if_neg Bool.false_ne_true, run_bind_of_ok types]
  rfl

/-- **A signature is read as its parts** from its characters, if its type parameters are separated. -/
theorem parts_chars {tree : Tree} (separated : tree.Separated) (fits : tree.chars.length ≤ limit) :
    parts whole limit tree.chars = .ok (tree.parts, []) := by
  cases tree with
  | ofClass parameters superclass interfaces => exact parts_types separated superclass interfaces fits
  | ofField type =>
    have small : ([type].flatMap Generic.chars).length ≤ limit := by
      rw [List.flatMap_singleton]
      exact fits
    have alone : parts whole limit ([type].flatMap Generic.chars) = .ok ([type].flatMap Generic.parts, []) :=
      parts_types .nil type [] small
    rwa [List.flatMap_singleton, List.flatMap_singleton] at alone
  | ofMethod parameters arguments result exceptions =>
    have chained : parameters.IsChain Parameter.Separates := separated
    have inside := length_le_enclosed '<' '>' (parameters.flatMap Parameter.chars)
    rw [Tree.chars, List.length_append, List.length_cons] at fits
    have opens : '(' ≠ '<' := by decide
    rw [Tree.chars, parts, run_bind_of_ok (typeParameters_enclosed chained (by omega) opens _),
      run_bind_of_ok (next_self _ _), if_pos rfl, run_bind_of_ok (methodTypes_chars (by omega))]
    rfl

/-- **The text of a signature is read as its parts.** -/
theorem parse_toText {tree : Tree} (separated : tree.Separated) : parse tree.toText = .ok tree.parts := by
  have long : tree.toText.length = tree.chars.length := by rw [Tree.toText, String.length_ofList]
  have read : parts tree.toText tree.toText.length tree.toText.toList = .ok (tree.parts, []) := by
    rw [long, Tree.toText, String.toList_ofList]
    exact parts_chars separated (Nat.le_refl _)
  rw [parse, read]
  rfl

end JarRename.Signature
