/-!
# References between constants

A constant names other constants either by the raw index it had in a class file or by the entry that
index was resolved to. What it may point at depends on its own kind only.
-/

namespace ClassRom

set_option autoImplicit false

/-- Number of a constant pool. Handles carry it, so that entries of two pools are never confused. -/
abbrev PoolId := Nat

/-- Position of a constant in the container that holds it. In a class table this is the class file
index; in a pool it stays the same however the slots are laid out. -/
abbrev EntryId := Nat

inductive Ref where
  /-- A class file index that has not been looked at yet. -/
  | index (i : UInt16)
  /-- An entry of the container the referring constant lives in. -/
  | entry (id : EntryId)
  deriving DecidableEq, Repr

/-- The kind of constant that a reference has to point at. -/
inductive RefKind where
  | utf8
  | classRef
  | nameAndType
  deriving DecidableEq, Repr

def RefKind.name : RefKind → String
  | .utf8 => "Utf8"
  | .classRef => "Class"
  | .nameAndType => "NameAndType"

end ClassRom
