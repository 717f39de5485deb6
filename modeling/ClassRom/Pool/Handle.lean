import ClassRom.Fault

/-!
# Handles

Where each constant of a class ended up when the class was merged into a pool. Relocation follows
these handles from the indices in code to the final indices of the pool.
-/

namespace ClassRom

set_option autoImplicit false

/-- An entry of a certain pool. -/
structure Handle where
  pool : PoolId
  entry : EntryId
  deriving DecidableEq, Repr

/-- Handles by class file index. -/
structure HandleMap where
  handles : Array (Option Handle)
  deriving DecidableEq, Repr

namespace HandleMap

/-- Room for `size` indices, none of them mapped. -/
def ofSize (size : Nat) : HandleMap := ⟨Array.replicate size none⟩

def empty : HandleMap := ofSize 0

/-- Maps an index, making room for it if there is none. -/
def insert (map : HandleMap) (index : UInt16) (handle : Handle) : HandleMap :=
  let room := Array.replicate (index.toNat + 1 - map.handles.size) none
  ⟨(map.handles ++ room).setIfInBounds index.toNat (some handle)⟩

def get? (map : HandleMap) (index : UInt16) : Option Handle := map.handles[index.toNat]?.join

/-- The handle of an index that is used at some offset of a method. -/
def lookup (map : HandleMap) (method : String) (offset : Nat) (index : UInt16) :
    Except Fault Handle :=
  match map.get? index with
  | some handle => .ok handle
  | none => .error (.consistency (.unmergedConstant method offset index))

end HandleMap

end ClassRom
