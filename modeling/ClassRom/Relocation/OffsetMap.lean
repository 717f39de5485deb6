import ClassRom.Fault

/-!
# Offset maps

Where each offset into the code before relocation stands after it. Only offsets of
instructions and the end of the code have an image.
-/

namespace ClassRom

set_option autoImplicit false

structure OffsetMap where
  /-- The new offset for each old one; the last of them is the end of the code. -/
  images : Array (Option Nat)
  deriving DecidableEq, Repr

namespace OffsetMap

/-- Nothing is mapped yet, for code of the given length. -/
def ofLength (length : Nat) : OffsetMap := ⟨Array.replicate (length + 1) none⟩

/-- Maps an offset, making room for it if there is none. -/
def insert (map : OffsetMap) (old new : Nat) : OffsetMap :=
  let room := Array.replicate (old + 1 - map.images.size) none
  ⟨(map.images ++ room).setIfInBounds old (some new)⟩

def get? (map : OffsetMap) (old : Nat) : Option Nat := map.images[old]?.join

/-- The image of the offset of an instruction, which the end of the code is not. -/
def instruction (map : OffsetMap) (method table : String) (old : Nat) : Except Fault Nat :=
  match map.get? old with
  | some new =>
    if old + 1 = map.images.size then
      .error (.consistency (.notInstructionBoundary method table old))
    else .ok new
  | none => .error (.consistency (.notInstructionBoundary method table old))

/-- The image of the end of a range, which may be the end of the code. -/
def rangeEnd (map : OffsetMap) (method table : String) (old : Nat) : Except Fault Nat :=
  match map.get? old with
  | some new => .ok new
  | none => .error (.consistency (.notInstructionBoundary method table old))

end OffsetMap

end ClassRom
