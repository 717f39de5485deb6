import ClassRom.Pool
import ClassRom.Pool.Handle
import ClassRom.Table

/-!
# Merging tables into pools

All constants of a table are added to a pool, and the handles of the entries that stand for them are
kept.
-/

namespace ClassRom

set_option autoImplicit false

/-- The indices of the constants of a table, sixteen bits each. -/
def Table.indices (table : Table) : List UInt16 :=
  table.entries.map fun (slot, _) => UInt16.ofNat slot

namespace Pool

/-- Adds the constants at the given indices one after the other, up to the first that is refused. -/
def mergeFrom (table : Table) :
    List UInt16 → HandleMap → Pool → Except Fault HandleMap × Pool
  | [], map, pool => (.ok map, pool)
  | index :: rest, map, pool =>
    match pool.add table.source index.toNat with
    | (.error fault, pool) => (.error fault, pool)
    | (.ok id, pool) => mergeFrom table rest (map.insert index ⟨pool.id, id⟩) pool

/-- Adds every constant of a table. -/
def merge (pool : Pool) (table : Table) : Except Fault HandleMap × Pool :=
  mergeFrom table table.indices (HandleMap.ofSize table.size) pool

end Pool

end ClassRom
