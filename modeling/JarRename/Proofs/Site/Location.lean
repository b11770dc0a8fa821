import JarRename.Proofs.Pool.Growth

/-!
**Locations.**

A name of a class is stored in a constant, in a declaration or in two bytes of an attribute. Locations without
a cell in common can be changed one after the other.

* `Cell`, `Location.Covers`: the cells of a location;
* `Location.Apart`: locations that have no cell in common;
* `ClassFile.Stores`: a location that holds a replacement.
-/

namespace JarRename

/-- What a renaming can change: a constant, a declaration or a byte of an attribute. -/
inductive Cell where
  | constant (index : Index)
  | field (position : Nat)
  | method (position : Nat)
  | byte (owner : Owner) (position offset : Nat)

namespace Location

/-- The location is stored in the cell. An index in an attribute takes two bytes; operands are stored
through constants. -/
def Covers : Location → Cell → Prop
  | classConstant index, .constant other | memberConstant index, .constant other
  | methodTypeConstant index, .constant other | dynamicConstant index, .constant other => index = other
  | fieldDeclaration position, .field other => position = other
  | methodDeclaration position, .method other => position = other
  | inAttribute owner position offset, .byte otherOwner otherPosition other =>
    owner = otherOwner ∧ position = otherPosition ∧ offset ≤ other ∧ other < offset + 2
  | _, _ => False

/-- Locations that have no cell in common. -/
def Apart (first second : Location) : Prop :=
  ∀ cell, first.Covers cell → ¬second.Covers cell

/-- The part of a class that a location belongs to, numbered in the order of the sites. -/
def part : Location → Nat
  | classConstant _ | memberConstant _ | methodTypeConstant _ | dynamicConstant _ => 0
  | fieldDeclaration _ => 1
  | methodDeclaration _ => 2
  | inAttribute .ofClass _ _ => 3
  | inAttribute (.ofField _) _ _ => 4
  | inAttribute (.ofMethod _) _ _ => 5
  | instruction _ _ _ => 6

end Location

/-- The part of a class that a cell belongs to. -/
def Cell.part : Cell → Nat
  | constant _ => 0
  | field _ => 1
  | method _ => 2
  | byte .ofClass _ _ => 3
  | byte (.ofField _) _ _ => 4
  | byte (.ofMethod _) _ _ => 5

namespace Location

theorem Covers.part {location : Location} {cell : Cell} (covers : location.Covers cell) :
    location.part = cell.part := by
  cases location <;> cases cell
  case inAttribute.byte owner position offset otherOwner otherPosition other =>
    obtain ⟨rfl, -⟩ := covers
    cases owner <;> rfl
  all_goals first | rfl | cases covers

theorem Covers.eq_constant {location : Location} {index : Index} {cell : Cell}
    (covers : location.Covers (.constant index)) (other : location.Covers cell) : cell = .constant index := by
  cases location <;> cases covers <;> cases cell <;> cases other
  all_goals rfl

theorem apart_of_part {first second : Location} (differ : first.part ≠ second.part) : first.Apart second :=
  fun _ covers other => differ (covers.part.trans other.part.symm)

/-- Indices in attributes that are not the same or do not overlap. -/
theorem apart_inAttribute {owner otherOwner : Owner} {position otherPosition offset otherOffset : Nat}
    (differ : owner = otherOwner → position = otherPosition →
      offset + 2 ≤ otherOffset ∨ otherOffset + 2 ≤ offset) :
    (inAttribute owner position offset).Apart (inAttribute otherOwner otherPosition otherOffset) := by
  rintro (_ | _ | _ | ⟨cellOwner, place, byte⟩) ⟨⟩ ⟨⟩
  have disjoint := differ (by simp_all) (by simp_all)
  omega

end Location

namespace ClassFile

/-- The location holds the replacement: the constant, the declaration or the index there stands for it. -/
def Stores (file : ClassFile) : Location → Replacement → Prop
  | .classConstant index, .text value =>
    ∃ name, file.pool.slot? index = some (.classRef name) ∧ file.pool.utf8 name = .ok value
  | .methodTypeConstant index, .text value =>
    ∃ descriptor, file.pool.slot? index = some (.methodType descriptor) ∧ file.pool.utf8 descriptor = .ok value
  | .memberConstant index, .nameAndType name descriptor =>
    ∃ kind : MemberKind, ∃ owner pair, file.pool.slot? index = some (kind.constant owner pair) ∧
      file.pool.nameAndType pair = .ok (name, descriptor)
  | .dynamicConstant index, .nameAndType name descriptor =>
    ∃ bootstrap pair, (file.pool.slot? index = some (.dynamic bootstrap pair) ∨
      file.pool.slot? index = some (.invokeDynamic bootstrap pair)) ∧
      file.pool.nameAndType pair = .ok (name, descriptor)
  | .fieldDeclaration position, .nameAndType name descriptor =>
    ∃ field, file.fields[position]? = some field ∧ file.pool.utf8 field.name = .ok name ∧
      file.pool.utf8 field.descriptor = .ok descriptor
  | .methodDeclaration position, .nameAndType name descriptor =>
    ∃ method, file.methods[position]? = some method ∧ file.pool.utf8 method.name = .ok name ∧
      file.pool.utf8 method.descriptor = .ok descriptor
  | .inAttribute owner position offset, replacement =>
    ∃ item index, (file.attributesOf owner)[position]? = some item ∧ item.data.peek offset = .ok index ∧
      file.pool.Names index replacement
  | _, _ => False

end ClassFile

end JarRename
