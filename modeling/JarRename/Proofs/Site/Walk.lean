import JarRename.Proofs.Reading
import JarRename.Proofs.Site.Piece

/-!
**Walks over pieces.**

A walk is retraced if it goes the same way over contents in which only the indices of names differ: then it
finds mentions at the same offsets. This is put together from the steps of the walk.

* `Walk.u8_eq_ok`, `Walk.u16_eq_ok`, `Walk.skip_eq_ok`, `Walk.nested_eq_ok`: the steps;
* `Walk.Agrees`: two walks over bytes that stay;
* `Walk.Retraces`: two walks over pieces;
* `Walk.Retraces.after`, `Walk.Retraces.append`, `Walk.Retraces.table`, `Walk.Retraces.nested`: walks after
  each other, repeated and nested.
-/

namespace JarRename

namespace Walk

/-! ### Steps -/

theorem u8_eq_ok {offset : Nat} {window : Bytes} {n : UInt8} {final : Cursor} :
    u8 ⟨offset, window⟩ = .ok (n, final) ↔
      ∃ rest, window = n :: rest ∧ final = ⟨offset + 1, rest⟩ := by
  match window with
  | [] => exact ⟨nofun, nofun⟩
  | a :: tail =>
    constructor
    · intro done
      cases done
      exact ⟨tail, rfl, rfl⟩
    · rintro ⟨rest, same, rfl⟩
      cases same
      rfl

theorem u16_eq_ok {offset : Nat} {window : Bytes} {n : UInt16} {final : Cursor} :
    u16 ⟨offset, window⟩ = .ok (n, final) ↔
      ∃ rest, window = Bytes.bytes16 n ++ rest ∧ final = ⟨offset + 2, rest⟩ := by
  match window with
  | [] | [_] => exact ⟨nofun, nofun⟩
  | a :: b :: tail =>
    constructor
    · intro done
      cases done
      exact ⟨tail, by rw [Bytes.bytes16_word16]; rfl, rfl⟩
    · rintro ⟨rest, same, rfl⟩
      injection same with first same
      injection same with second same
      subst first second same
      exact congrArg (fun n => Except.ok (n, _)) (Bytes.word16_bytes16 n)

theorem skip_eq_ok {offset length : Nat} {window : Bytes} {value : Unit} {final : Cursor} :
    skip length ⟨offset, window⟩ = .ok (value, final) ↔
      ∃ taken rest, taken.length = length ∧ window = taken ++ rest ∧ final = ⟨offset + length, rest⟩ := by
  unfold skip
  dsimp only
  constructor
  · intro done
    split at done
    · cases done
    next enough =>
      cases done
      refine ⟨window.take length, window.drop length, ?_, (List.take_append_drop _ _).symm, rfl⟩
      exact Nat.le_antisymm (List.length_take_le _ _) (Nat.le_of_not_lt enough)
  · rintro ⟨taken, rest, rfl, rfl, rfl⟩
    rw [List.take_left, if_neg (Nat.lt_irrefl _), List.drop_left]

theorem check_eq_ok {α : Type} {outcome : Except Fault α} {value : α} {cursor final : Cursor} :
    check outcome cursor = .ok (value, final) ↔ outcome = .ok value ∧ cursor = final := by
  cases outcome with
  | error cause => exact ⟨nofun, fun both => nomatch both.1⟩
  | ok found =>
    constructor
    · intro done
      cases done
      exact ⟨rfl, rfl⟩
    · rintro ⟨same, rfl⟩
      cases same
      rfl

/-- The window of a nested attribute is what stands next. -/
theorem nested_eq_ok {offset length : Nat} {window : Bytes} {inner final : Cursor} :
    nested length ⟨offset, window⟩ = .ok (inner, final) ↔
      ∃ taken rest, taken.length = length ∧ window = taken ++ rest ∧ inner = ⟨offset, taken⟩ ∧
        final = ⟨offset, window⟩ := by
  unfold nested
  dsimp only
  constructor
  · intro done
    split at done
    · cases done
    next enough =>
      cases done
      refine ⟨window.take length, window.drop length, ?_, (List.take_append_drop _ _).symm, rfl, rfl⟩
      exact Nat.le_antisymm (List.length_take_le _ _) (Nat.le_of_not_lt enough)
  · rintro ⟨taken, rest, rfl, rfl, rfl, rfl⟩
    rw [List.take_left, if_neg (Nat.lt_irrefl _)]

/-! ### Walks over bytes that stay -/

/-- The walk takes some bytes, and `other` takes the same bytes, whatever follows, for the same value. -/
def Agrees {α : Type} (walk other : Walk α) : Prop :=
  ∀ offset window value final, walk ⟨offset, window⟩ = .ok (value, final) →
    ∃ taken rest, window = taken ++ rest ∧ final = ⟨offset + taken.length, rest⟩ ∧
      ∀ left, other ⟨offset, taken ++ left⟩ = .ok (value, ⟨offset + taken.length, left⟩)

namespace Agrees

variable {α β : Type}

theorem u8 : Agrees Walk.u8 Walk.u8 := by
  intro offset window n final done
  obtain ⟨rest, rfl, rfl⟩ := u8_eq_ok.mp done
  exact ⟨[n], rest, rfl, rfl, fun left => u8_eq_ok.mpr ⟨left, rfl, rfl⟩⟩

theorem u16 : Agrees Walk.u16 Walk.u16 := by
  intro offset window n final done
  obtain ⟨rest, rfl, rfl⟩ := u16_eq_ok.mp done
  exact ⟨Bytes.bytes16 n, rest, rfl, rfl, fun left => u16_eq_ok.mpr ⟨left, rfl, rfl⟩⟩

theorem skip (length : Nat) : Agrees (Walk.skip length) (Walk.skip length) := by
  intro offset window value final done
  obtain ⟨taken, rest, rfl, rfl, rfl⟩ := skip_eq_ok.mp done
  exact ⟨taken, rest, rfl, rfl, fun left => skip_eq_ok.mpr ⟨taken, left, rfl, rfl, rfl⟩⟩

theorem check {outcome other : Except Fault α} (same : ∀ value, outcome = .ok value → other = .ok value) :
    Agrees (Walk.check outcome) (Walk.check other) := by
  intro offset window value final done
  obtain ⟨found, rfl⟩ := check_eq_ok.mp done
  exact ⟨[], window, rfl, rfl, fun left => check_eq_ok.mpr ⟨same value found, rfl⟩⟩

theorem pure (value : α) : Agrees (Pure.pure value) (Pure.pure value) := by
  intro offset window found final done
  obtain ⟨rfl, rfl⟩ := run_pure_eq_ok.mp done
  exact ⟨[], window, rfl, rfl, fun left => rfl⟩

theorem fail (cause : Fault) : Agrees (Walk.fail cause : Walk α) (Walk.fail cause) :=
  fun _ _ _ _ done => nomatch done

theorem bind {first other : Walk α} {next otherNext : α → Walk β} (agrees : Agrees first other)
    (nextAgrees : ∀ value, Agrees (next value) (otherNext value)) :
    Agrees (first >>= next) (other >>= otherNext) := by
  intro offset window value final done
  obtain ⟨middle, between, step, done⟩ := run_bind_eq_ok.mp done
  obtain ⟨taken, rest, rfl, rfl, again⟩ := agrees offset window middle between step
  obtain ⟨later, rest, rfl, rfl, laterAgain⟩ := nextAgrees middle _ _ value final done
  refine ⟨taken ++ later, rest, (List.append_assoc _ _ _).symm, ?_, fun left => ?_⟩
  · rw [List.length_append, Nat.add_assoc]
  · rw [List.append_assoc, run_bind_of_ok (again _), laterAgain, List.length_append, Nat.add_assoc]

theorem u32 : Agrees Walk.u32 Walk.u32 :=
  u16.bind fun _ => u16.bind fun _ => pure _

end Agrees

/-! ### Repeated walks -/

theorem timesFrom_eq {α : Type} (item : Walk α) (found : List α) (count : Nat) :
    timesFrom item found count = (do let later ← timesFrom item [] count; return found.reverse ++ later) := by
  induction count generalizing found with
  | zero => simp [timesFrom]
  | succ count ih =>
    rw [timesFrom, timesFrom, bind_assoc]
    refine congrArg (item >>= ·) (funext fun value => ?_)
    rw [ih (value :: found), ih [value], bind_assoc]
    simp

/-- A walk repeated once more is the walk followed by its repetition. -/
theorem concat_succ {α : Type} (count : Nat) (item : Walk (List α)) :
    concat (count + 1) item = (do let first ← item; let later ← concat count item; return first ++ later) := by
  rw [concat, times, timesFrom, bind_assoc]
  refine congrArg (item >>= ·) (funext fun value => ?_)
  rw [timesFrom_eq, concat, times, bind_assoc, bind_assoc]
  simp

/-! ### Walks over pieces -/

/-- The walk finds the mentions of pieces whose indices are sound, and `other` finds the mentions of any
pieces alike to them, whatever follows. -/
def Retraces (pool : Pool) (owner : String) (alike : Symbol → Index → Symbol → Prop)
    (walk other : Walk (List Mention)) : Prop :=
  ∀ offset window found final, walk ⟨offset, window⟩ = .ok (found, final) →
    ∃ pieces rest, window = Piece.bytesOf pieces ++ rest ∧
      final = ⟨offset + (Piece.bytesOf pieces).length, rest⟩ ∧ found = Piece.mentions offset pieces ∧
      Piece.Sound pool owner pieces ∧
      ∀ others left, List.Forall₂ (Piece.Alike alike) pieces others →
        other ⟨offset, Piece.bytesOf others ++ left⟩ =
          .ok (Piece.mentions offset others, ⟨offset + (Piece.bytesOf pieces).length, left⟩)

namespace Retraces

variable {α : Type} {pool : Pool} {owner : String} {alike : Symbol → Index → Symbol → Prop}
variable {walk other second otherSecond : Walk (List Mention)}

theorem nothing : Retraces pool owner alike (pure []) (pure []) := by
  intro offset window found final done
  obtain ⟨rfl, rfl⟩ := run_pure_eq_ok.mp done
  refine ⟨[], window, rfl, rfl, rfl, .nil, fun others left same => ?_⟩
  obtain rfl := List.forall₂_nil_left_iff.mp same
  rfl

theorem fail (cause : Fault) : Retraces pool owner alike (Walk.fail cause) (Walk.fail cause) :=
  fun _ _ _ _ done => nomatch done

theorem truncated : Retraces pool owner alike Walk.truncated Walk.truncated :=
  fun _ _ _ _ done => nomatch done

theorem ite {condition : Prop} [Decidable condition]
    (yes : condition → Retraces pool owner alike walk other)
    (no : ¬condition → Retraces pool owner alike second otherSecond) :
    Retraces pool owner alike (if condition then walk else second) (if condition then other else otherSecond) := by
  by_cases holds : condition
  · rw [if_pos holds, if_pos holds]
    exact yes holds
  · rw [if_neg holds, if_neg holds]
    exact no holds

/-- Bytes that stay in front of pieces. -/
theorem after {first otherFirst : Walk α} {next otherNext : α → Walk (List Mention)}
    (agrees : Agrees first otherFirst)
    (retraces : ∀ value, Retraces pool owner alike (next value) (otherNext value)) :
    Retraces pool owner alike (first >>= next) (otherFirst >>= otherNext) := by
  intro offset window found final done
  obtain ⟨value, between, step, done⟩ := run_bind_eq_ok.mp done
  obtain ⟨taken, rest, rfl, rfl, again⟩ := agrees offset window value between step
  obtain ⟨pieces, rest, rfl, rfl, rfl, sound, nextAgain⟩ := retraces value _ _ found final done
  refine ⟨[.plain taken] ++ pieces, rest, ?_, ?_, ?_, (Piece.Sound.plain taken).append sound, ?_⟩
  · simp [Piece.bytes]
  · simp [Piece.bytes, Nat.add_assoc]
  · rfl
  · intro others left whole
    obtain ⟨one, two, rfl, plain, same⟩ := Piece.alike_append whole
    obtain rfl := Piece.alike_plain plain
    have bytes : Piece.bytesOf ([.plain taken] ++ two) ++ left = taken ++ (Piece.bytesOf two ++ left) := by
      simp [Piece.bytes]
    rw [bytes, run_bind_of_ok (again _), nextAgain two left same]
    simp [Piece.bytes, Piece.mentions, Nat.add_assoc]

/-- Bytes that stay behind pieces. -/
theorem before {last otherLast : Walk Unit} (retraces : Retraces pool owner alike walk other)
    (agrees : Agrees last otherLast) :
    Retraces pool owner alike (do let found ← walk; last; return found)
      (do let found ← other; otherLast; return found) := by
  intro offset window found final done
  obtain ⟨early, between, step, done⟩ := run_bind_eq_ok.mp done
  obtain ⟨⟨⟩, late, lastStep, done⟩ := run_bind_eq_ok.mp done
  obtain ⟨rfl, rfl⟩ := run_pure_eq_ok.mp done
  obtain ⟨pieces, rest, rfl, rfl, rfl, sound, again⟩ := retraces offset window early between step
  obtain ⟨taken, rest, rfl, rfl, lastAgain⟩ := agrees _ _ () late lastStep
  refine ⟨pieces ++ [.plain taken], rest, ?_, ?_, ?_, sound.append (.plain taken), ?_⟩
  · simp [Piece.bytes]
  · simp [Piece.bytes, Nat.add_assoc]
  · simp [Piece.mentions_append, Piece.mentions]
  · intro others left whole
    obtain ⟨one, two, rfl, same, plain⟩ := Piece.alike_append whole
    obtain rfl := Piece.alike_plain plain
    have bytes : Piece.bytesOf (one ++ [.plain taken]) ++ left = Piece.bytesOf one ++ (taken ++ left) := by
      simp [Piece.bytes]
    rw [bytes, run_bind_of_ok (again one _ same), run_bind_of_ok (lastAgain left)]
    refine run_pure_eq_ok.mpr ⟨?_, ?_⟩
    · simp [Piece.mentions_append, Piece.mentions]
    · simp [Piece.bytes, Nat.add_assoc]

/-- Pieces after pieces. -/
theorem append (retraces : Retraces pool owner alike walk other)
    (secondRetraces : Retraces pool owner alike second otherSecond) :
    Retraces pool owner alike (do let first ← walk; let later ← second; return first ++ later)
      (do let first ← other; let later ← otherSecond; return first ++ later) := by
  intro offset window found final done
  obtain ⟨early, between, step, done⟩ := run_bind_eq_ok.mp done
  obtain ⟨later, late, secondStep, done⟩ := run_bind_eq_ok.mp done
  obtain ⟨rfl, rfl⟩ := run_pure_eq_ok.mp done
  obtain ⟨pieces, rest, rfl, rfl, rfl, sound, again⟩ := retraces offset window early between step
  obtain ⟨more, rest, rfl, rfl, rfl, moreSound, moreAgain⟩ := secondRetraces _ _ later late secondStep
  refine ⟨pieces ++ more, rest, ?_, ?_, ?_, sound.append moreSound, ?_⟩
  · simp
  · simp [Nat.add_assoc]
  · rw [Piece.mentions_append]
  · intro others left whole
    obtain ⟨one, two, rfl, same, moreSame⟩ := Piece.alike_append whole
    have length := Piece.length_bytesOf_of_alike same
    rw [Piece.bytesOf_append, List.append_assoc, run_bind_of_ok (again one _ same),
      run_bind_of_ok (moreAgain two left moreSame), Piece.mentions_append, length, Piece.bytesOf_append,
      List.length_append, Nat.add_assoc]
    rfl

theorem concat (retraces : Retraces pool owner alike walk other) (count : Nat) :
    Retraces pool owner alike (Walk.concat count walk) (Walk.concat count other) := by
  induction count with
  | zero => exact nothing
  | succ count ih =>
    rw [concat_succ, concat_succ]
    exact retraces.append ih

theorem table (retraces : Retraces pool owner alike walk other) :
    Retraces pool owner alike (Walk.table walk) (Walk.table other) :=
  after Agrees.u16 fun count => retraces.concat count.toNat

/-- Pieces at the front of a nested window, whose other bytes stay. -/
theorem nested (retraces : Retraces pool owner alike walk other) (length : Nat) :
    Retraces pool owner alike
      (do
        let cursor ← Walk.nested length
        let found ← Walk.check (do let (found, _) ← walk cursor; return found)
        Walk.skip length
        return found)
      (do
        let cursor ← Walk.nested length
        let found ← Walk.check (do let (found, _) ← other cursor; return found)
        Walk.skip length
        return found) := by
  intro offset window found final done
  obtain ⟨inner, _, step, done⟩ := run_bind_eq_ok.mp done
  obtain ⟨taken, rest, rfl, rfl, rfl, rfl⟩ := nested_eq_ok.mp step
  obtain ⟨early, _, step, done⟩ := run_bind_eq_ok.mp done
  obtain ⟨visited, rfl⟩ := check_eq_ok.mp step
  obtain ⟨⟨⟩, _, step, done⟩ := run_bind_eq_ok.mp done
  obtain ⟨skipped, left, size, split, rfl⟩ := skip_eq_ok.mp step
  obtain ⟨rfl, rfl⟩ := run_pure_eq_ok.mp done
  obtain ⟨rfl, rfl⟩ := List.append_inj split size.symm
  obtain ⟨⟨mentions, inside⟩, walked, visited⟩ := bind_eq_ok.mp visited
  cases visited
  obtain ⟨pieces, unread, rfl, rfl, rfl, sound, again⟩ := retraces offset _ _ inside walked
  refine ⟨pieces ++ [.plain unread], rest, ?_, ?_, ?_, sound.append (.plain unread), ?_⟩
  · simp [Piece.bytes]
  · simp [Piece.bytes]
  · simp [Piece.mentions_append, Piece.mentions]
  · intro others left whole
    obtain ⟨one, two, rfl, same, plain⟩ := Piece.alike_append whole
    obtain rfl := Piece.alike_plain plain
    have size : (Piece.bytesOf one ++ unread).length = (Piece.bytesOf pieces ++ unread).length := by
      rw [List.length_append, List.length_append, Piece.length_bytesOf_of_alike same]
    have bytes : Piece.bytesOf (one ++ [.plain unread]) ++ left = (Piece.bytesOf one ++ unread) ++ left := by
      simp [Piece.bytes]
    have visitedAgain :
        (do
          let (found, _) ← other ⟨offset, Piece.bytesOf one ++ unread⟩
          return found) = .ok (Piece.mentions offset one) :=
      bind_eq_ok.mpr ⟨_, again one unread same, rfl⟩
    have skipped : Walk.skip _ ⟨offset, (Piece.bytesOf one ++ unread) ++ left⟩ = .ok ((), _) :=
      skip_eq_ok.mpr ⟨_, left, size, rfl, rfl⟩
    rw [bytes, run_bind_of_ok (nested_eq_ok.mpr ⟨_, _, size, rfl, rfl, rfl⟩),
      run_bind_of_ok (check_eq_ok.mpr ⟨visitedAgain, rfl⟩),
      run_bind_of_ok skipped]
    refine run_pure_eq_ok.mpr ⟨?_, ?_⟩
    · simp [Piece.mentions_append, Piece.mentions]
    · simp [Piece.bytes]

end Retraces

end Walk

end JarRename
