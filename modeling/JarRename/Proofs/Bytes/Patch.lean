import JarRename.Bytes.Patch
import Mathlib.Data.List.Basic

/-!
**Patches.**

An index stored at an offset is two bytes of its own. Patching overwrites these two bytes and no others, so
an index at any other place is read as before.

* `Bytes.peek_eq_ok`: the index stored at an offset, by its two bytes;
* `Bytes.Patched`, `Bytes.patched_of_patch`: what a patch changes.
-/

namespace JarRename.Bytes

variable {bytes result : Bytes} {offset : Nat} {index : UInt16}

/-- An index is stored at an offset if its two bytes stand there. -/
theorem peek_eq_ok :
    peek bytes offset = .ok index ↔ ∃ a b, bytes[offset]? = some a ∧ bytes[offset + 1]? = some b ∧
      word16 a b = index := by
  have first : (bytes.drop offset)[0]? = bytes[offset]? := by rw [List.getElem?_drop, Nat.add_zero]
  have second : (bytes.drop offset)[1]? = bytes[offset + 1]? := by rw [List.getElem?_drop]
  rw [← first, ← second]
  unfold peek
  match bytes.drop offset with
  | [] => simp
  | [a] => simp
  | a :: b :: rest => simp

theorem peek_drop {length place : Nat} (found : peek bytes (length + place) = .ok index) :
    peek (bytes.drop length) place = .ok index := by
  obtain ⟨a, b, first, second, same⟩ := peek_eq_ok.mp found
  refine peek_eq_ok.mpr ⟨a, b, ?_, ?_, same⟩
  · rw [List.getElem?_drop, first]
  · rw [List.getElem?_drop, ← Nat.add_assoc, second]

/-- An index stored at the front. -/
theorem take_two_of_peek (found : peek bytes 0 = .ok index) : bytes.take 2 = bytes16 index := by
  unfold peek at found
  rw [List.drop_zero] at found
  split at found
  next a b rest =>
    cases found
    rw [bytes16_word16]
    rfl
  next => cases found

/-- Bytes after an index was stored at an offset. -/
structure Patched (bytes result : Bytes) (offset : Nat) (index : UInt16) : Prop where
  length : result.length = bytes.length
  stored : peek result offset = .ok index
  outside : ∀ position, position < offset ∨ offset + 2 ≤ position → result[position]? = bytes[position]?

theorem patched_of_patch (done : patch bytes offset index = .ok result) :
    Patched bytes result offset index := by
  unfold patch at done
  split at done
  next a b rest split =>
    have whole : bytes = bytes.take offset ++ (a :: b :: rest) := by
      rw [← split, List.take_append_drop]
    have size : (bytes.take offset).length = offset := by
      refine List.length_take_of_le (Nat.le_of_lt ?_)
      have longer := congrArg List.length split
      rw [List.length_drop, List.length_cons] at longer
      omega
    generalize bytes.take offset = front at whole done size
    subst size whole
    cases done
    constructor
    case length => simp [bytes16]
    case stored =>
      refine peek_eq_ok.mpr ⟨_, _, ?_, ?_, word16_bytes16 index⟩
      · simp [bytes16]
      · simp [bytes16]
    case outside =>
      rintro position (early | late)
      · simp [List.getElem?_append_left, early]
      · obtain ⟨distance, rfl⟩ := Nat.exists_eq_add_of_le late
        have shift : front.length + 2 + distance = front.length + (distance + 2) := by omega
        rw [shift, List.append_assoc, List.getElem?_append_right (Nat.le_add_right _ _),
          List.getElem?_append_right (Nat.le_add_right _ _), Nat.add_sub_cancel_left]
        rfl
  next => cases done

end JarRename.Bytes
