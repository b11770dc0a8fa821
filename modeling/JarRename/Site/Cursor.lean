import JarRename.Bytes.Word
import JarRename.Fault

/-!
**Walking through the contents of an attribute.**

A cursor is a window of the contents with the offset at which it starts, counted from the start of the
outermost attribute. Walks move the cursor forward and never past its window.

* `Cursor`, `Walk`: cursors and the walks that move them;
* `Walk.u8`, `Walk.u16`, `Walk.u32`, `Walk.skip`: steps;
* `Walk.nested`: a window for a nested attribute;
* `Walk.times`: a walk repeated.
-/

namespace JarRename

/-- The unread part of an attribute's contents and where it starts. -/
structure Cursor where
  offset : Nat
  window : Bytes
  deriving DecidableEq

/-- A walk through the contents of an attribute. -/
abbrev Walk (α : Type) := StateT Cursor (Except Fault) α

namespace Walk

/-- The offset of the cursor. -/
def position : Walk Nat := fun cursor => .ok (cursor.offset, cursor)

/-- Fails with a cause. -/
def fail {α : Type} (cause : Fault) : Walk α := fun _ => .error cause

/-- Fails because the contents are cut off here. -/
def truncated {α : Type} : Walk α := fun cursor => .error (.truncated cursor.offset)

/-- The outcome of something that does not move the cursor. -/
def check {α : Type} (outcome : Except Fault α) : Walk α := fun cursor =>
  match outcome with
  | .ok value => .ok (value, cursor)
  | .error cause => .error cause

/-- Moves over `length` bytes. -/
def skip (length : Nat) : Walk Unit := fun cursor =>
  if (cursor.window.take length).length < length then .error (.truncated cursor.offset)
  else .ok ((), { offset := cursor.offset + length, window := cursor.window.drop length })

/-- A number of one byte. -/
def u8 : Walk UInt8 := fun cursor =>
  match cursor.window with
  | a :: rest => .ok (a, { offset := cursor.offset + 1, window := rest })
  | _ => .error (.truncated cursor.offset)

/-- A number of two bytes. -/
def u16 : Walk UInt16 := fun cursor =>
  match cursor.window with
  | a :: b :: rest => .ok (Bytes.word16 a b, { offset := cursor.offset + 2, window := rest })
  | _ => .error (.truncated cursor.offset)

/-- A number of four bytes, read in halves. -/
def u32 : Walk Nat := do
  let high ← u16
  let low ← u16
  return high.toNat * 65536 + low.toNat

/-- A cursor for the next `length` bytes, which stay unread. -/
def nested (length : Nat) : Walk Cursor := fun cursor =>
  let window := cursor.window.take length
  if window.length < length then .error (.nestedOverrun length)
  else .ok ({ offset := cursor.offset, window }, cursor)

/-- A walk `count` times, after the results found before it (latest first). -/
def timesFrom {α : Type} (item : Walk α) (found : List α) : Nat → Walk (List α)
  | 0 => pure found.reverse
  | count + 1 => do
    let value ← item
    timesFrom item (value :: found) count

/-- A walk `count` times, with the results in order. -/
def times {α : Type} (count : Nat) (item : Walk α) : Walk (List α) :=
  timesFrom item [] count

/-- A walk `count` times, with the lists it finds put together. -/
def concat {α : Type} (count : Nat) (item : Walk (List α)) : Walk (List α) := do
  return (← times count item).flatten

/-- A walk as often as the next two bytes say, with the lists it finds put together. -/
def table {α : Type} (item : Walk (List α)) : Walk (List α) := do
  let count ← u16
  concat count.toNat item

end Walk

end JarRename
