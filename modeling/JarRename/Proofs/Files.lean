import JarRename.Files
import JarRename.Proofs.Outcome
import JarRename.Proofs.Text.Lines

/-!
**Files that are written and read back.**

A file can be written where a path leads, unless a directory stands there. Whether it can depends on the path and the
tree alone and not on the contents. Afterwards the path leads to the same place, and the contents stand there.

* `Files.node?_put`: a tree with something put at a place;
* `Files.walk_put`: ways that stay the same when a file is put somewhere;
* `Files.Outlet`, `Files.write_eq_ok`: where a file is written;
* `Files.find_write`, `Files.readJar_write`: reading it back.
-/

namespace JarRename

namespace Files

variable {files later : Files} {place : Path} {node : Node} {path : String} {content : Content}

/-! ### Something put at a place -/

/-- Replacing what stands at a place changes nothing but what is found there. -/
theorem lookup_replaced (nodes : List (Path × Node)) (other : Path) :
    (nodes.map fun (path, old) => if path == place then (path, node) else (path, old)).lookup other =
      if other = place then (nodes.lookup other).map fun _ => node else nodes.lookup other := by
  induction nodes with
  | nil => simp
  | cons first rest ih =>
    obtain ⟨here, old⟩ := first
    by_cases same : other = here
    · subst same
      by_cases there : other = place <;> simp [there]
    · have differ : (other == here) = false := beq_false_of_ne same
      have skipped (new : Node) (nodes : List (Path × Node)) :
          ((here, new) :: nodes).lookup other = nodes.lookup other := by
        rw [List.lookup_cons, differ]
      rw [List.map_cons, skipped old rest, ← ih]
      dsimp only
      by_cases there : (here == place) = true
      · rw [if_pos there, skipped]
      · rw [if_neg there, skipped]

/-- **A tree with something put at a place** has it there, and everything else as before. -/
theorem node?_put (inside : place ≠ []) (other : Path) :
    (files.put place node).node? other = if other = place then some node else files.node? other := by
  have known : files.nodes.any (·.1 == place) = (files.nodes.lookup place).isSome := by
    rw [Bool.eq_iff_iff, List.any_eq_true, List.lookup_isSome_iff]
    simp only [beq_iff_eq, @eq_comm _ place]
  unfold node? put
  by_cases top : other = []
  · subst top
    simp [Ne.symm inside]
  · simp only [List.isEmpty_iff, top, if_false, known]
    cases found : files.nodes.lookup place with
    | some old =>
      rw [Option.isSome_some, if_pos rfl, lookup_replaced]
      by_cases same : other = place
      · rw [if_pos same, if_pos same, same, found, Option.map_some]
      · rw [if_neg same, if_neg same]
    | none =>
      rw [Option.isSome_none, if_neg Bool.false_ne_true, List.lookup_append]
      by_cases same : other = place
      · rw [if_pos same, same, found, Option.none_or, List.lookup_cons_self]
      · rw [if_neg same, List.lookup_cons, beq_false_of_ne same, List.lookup_nil, Option.or_none]

/-- The top is always a directory. -/
theorem ne_nil_of_free (free : files.node? place ≠ some .directory) : place ≠ [] := by
  rintro rfl
  exact free rfl

/-! ### Ways through a tree -/

/-- A way is a way and the way on from its end. -/
theorem walk_append (files : Files) (place : Path) (first second : List String) :
    files.walk place (first ++ second) = files.walk place first >>= fun middle => files.walk middle second := by
  induction first generalizing place with
  | nil => rfl
  | cons part rest ih =>
    rw [List.cons_append, walk, walk]
    cases files.node? place with
    | none => rfl
    | some node =>
      cases node with
      | file => rfl
      | directory =>
        by_cases long : maxPart < part.utf8ByteSize
        · simp only [if_pos long]
          rfl
        · simp only [if_neg long]
          exact ih _

/-- The first part of a way leads on from a directory. -/
theorem walk_cons_eq_ok {start : Path} {part : String} {rest : List String} :
    files.walk start (part :: rest) = .ok place ↔
      files.node? start = some .directory ∧ part.utf8ByteSize ≤ maxPart ∧
        files.walk (step start part) rest = .ok place := by
  rw [walk]
  cases files.node? start with
  | none => simp
  | some node =>
    cases node with
    | file => simp
    | directory =>
      by_cases long : maxPart < part.utf8ByteSize
      · simp [long, Nat.not_le_of_lt long]
      · simp [long, Nat.le_of_not_lt long]

/-- **A way stays the same** when something is put at a place that is no directory. -/
theorem walk_put (free : files.node? place ≠ some .directory) {start goal : Path} {way : List String}
    (walked : files.walk start way = .ok goal) : (files.put place node).walk start way = .ok goal := by
  induction way generalizing start with
  | nil => exact walked
  | cons part rest ih =>
    obtain ⟨directory, short, walked⟩ := walk_cons_eq_ok.mp walked
    refine walk_cons_eq_ok.mpr ⟨?_, short, ih walked⟩
    rw [node?_put (ne_nil_of_free free), if_neg, directory]
    rintro rfl
    exact free directory

/-! ### Writing -/

/-- A file can be written at a path, and stands at the place then. -/
structure Outlet (files : Files) (path : String) (place : Path) : Prop where
  plain : hasNull path = false
  shaped : checkPath path = .ok ()
  /-- The path leads to a directory, and one part further to the place. -/
  way : ∃ directory, files.walk (files.start path) ((splitPath path).1 ++ [""]) = .ok directory ∧
    isStep (splitPath path).2 = false ∧ files.walk directory [(splitPath path).2] = .ok place
  named : (path.toList.getLast? == some '/') = false
  free : files.node? place ≠ some .directory

/-- **Writing a file** puts its contents where the path leads. -/
theorem write_eq_ok : files.write path content = .ok later ↔
    ∃ place, files.Outlet path place ∧ files.put place (.file content) = later := by
  unfold write
  by_cases null : hasNull path = true
  · rw [if_pos null]
    refine iff_of_false nofun ?_
    rintro ⟨place, outlet, -⟩
    exact Bool.false_ne_true (outlet.plain.symm.trans null)
  by_cases step : isStep (splitPath path).2 = true
  · simp only [null, step, Bool.false_eq_true, if_true, if_false, bind_eq_ok]
    refine iff_of_false ?_ ?_
    · rintro ⟨_, -, _, -, _, failed, -⟩
      cases failed
    · rintro ⟨place, outlet, -⟩
      obtain ⟨directory, -, noStep, -⟩ := outlet.way
      exact Bool.false_ne_true (noStep.symm.trans step)
  by_cases slash : (path.toList.getLast? == some '/') = true
  · simp only [null, step, slash, Bool.false_eq_true, if_true, if_false, bind_eq_ok]
    refine iff_of_false ?_ ?_
    · rintro ⟨_, -, _, -, _, -, failed⟩
      cases failed
    · rintro ⟨place, outlet, -⟩
      exact Bool.false_ne_true (outlet.named.symm.trans slash)
  simp only [null, step, slash, Bool.false_eq_true, if_false, bind_eq_ok]
  rw [Bool.not_eq_true] at null step slash
  constructor
  · rintro ⟨⟨⟩, shaped, directory, walked, place, last, written⟩
    split at written
    next => cases written
    next free =>
      exact ⟨place, ⟨null, shaped, ⟨directory, walked, step, last⟩, slash, free⟩, pure_eq_ok.mp written⟩
  · rintro ⟨place, outlet, same⟩
    obtain ⟨directory, walked, -, last⟩ := outlet.way
    refine ⟨(), outlet.shaped, directory, walked, place, last, ?_⟩
    split
    next occupied => exact absurd occupied outlet.free
    next => exact pure_eq_ok.mpr same

/-- The parts of a path that does not end with a slash are those before the last one, and the last one. -/
theorem splitPath_eq (filled : path ≠ "") (named : (path.toList.getLast? == some '/') = false) :
    parts path = (splitPath path).1 ++ [(splitPath path).2] := by
  have chars : path.toList ≠ [] := by simpa using filled
  have uncut (c : Char) (found : path.toList.getLast? = some c) : (c == '/') = false := by
    rw [found] at named
    exact named
  obtain ⟨c, rest, last⟩ := Text.getLast?_pieces chars uncut
  obtain ⟨before, split⟩ := List.getLast?_eq_some_iff.mp last
  have whole : parts path = before.map String.ofList ++ [String.ofList (c :: rest)] := by
    rw [parts, split, List.map_append, List.map_singleton]
  rw [splitPath, whole]
  simp

/-- A path that a file can be written at leads to the place of the file. -/
theorem Outlet.resolve (outlet : files.Outlet path place) : files.resolve path = .ok place := by
  have filled : path ≠ "" := by
    rintro rfl
    cases outlet.shaped
  obtain ⟨directory, walked, -, last⟩ := outlet.way
  rw [Files.resolve, if_neg (outlet.plain ▸ Bool.false_ne_true), outlet.shaped, ok_bind,
    splitPath_eq filled outlet.named, walk_append]
  rw [walk_append] at walked
  obtain ⟨middle, first, stay⟩ := bind_eq_ok.mp walked
  obtain ⟨-, -, same⟩ := walk_cons_eq_ok.mp stay
  cases same
  exact bind_eq_ok.mpr ⟨middle, first, last⟩

/-- A path leads to the same place when something is put at a place that is no directory. -/
theorem resolve_put (free : files.node? place ≠ some .directory) {goal : Path}
    (resolved : files.resolve path = .ok goal) : (files.put place node).resolve path = .ok goal := by
  unfold resolve at resolved ⊢
  by_cases null : hasNull path = true
  · rw [if_pos null] at resolved
    cases resolved
  · rw [if_neg null] at resolved ⊢
    obtain ⟨⟨⟩, shaped, walked⟩ := bind_eq_ok.mp resolved
    exact bind_eq_ok.mpr ⟨(), shaped, walk_put free walked⟩

/-- **A file is read back where it was written.** -/
theorem find_write (wrote : files.write path content = .ok later) : later.find path = .ok (.file content) := by
  obtain ⟨place, outlet, rfl⟩ := write_eq_ok.mp wrote
  rw [find, resolve_put outlet.free outlet.resolve, ok_bind, node?_put (ne_nil_of_free outlet.free), if_pos rfl]
  rfl

/-- Whether a file can be written does not depend on its contents. -/
theorem exists_write (wrote : files.write path content = .ok later) (other : Content) :
    ∃ after, files.write path other = .ok after := by
  obtain ⟨place, outlet, -⟩ := write_eq_ok.mp wrote
  exact ⟨_, write_eq_ok.mpr ⟨place, outlet, rfl⟩⟩

theorem readJar_write {entries : List Jar.Entry} (wrote : files.write path (.jar entries) = .ok later) :
    later.readJar path = .ok entries := by
  rw [readJar, find_write wrote]
  rfl

end Files

end JarRename
