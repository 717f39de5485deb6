import ClassRom.Pool.Layout
import ClassRom.Table

/-!
# Pools as bytes

A pool is written like the constant table of a class: the number of slots, then the live entries in
order, their references as final indices. Read back, equal constants become one entry that counts how
often it was there.
-/

namespace ClassRom

set_option autoImplicit false

namespace Pool

/-- The index under which a reference is written. -/
def finalIndex (pool : Pool) (ref : Ref) : Except Fault UInt16 :=
  match ref.resolved with
  | .error fault => .error (.format fault)
  | .ok id =>
    match pool.get? id with
    | none => .error (.format (.danglingEntry id))
    | some entry =>
      match entry.index with
      | none => .error (.consistency (.deletedPoolReference id))
      | some index => .ok (UInt16.ofNat index)

def chunks (pool : Pool) : List (Except Fault Bytes) :=
  .ok (Wire.u16 (UInt16.ofNat pool.size)) ::
    pool.order.flatMap fun id =>
      match pool.get? id with
      | some entry => entry.value.chunks pool.finalIndex
      | none => []

def write (pool : Pool) : Output Fault := Output.ofChunks pool.chunks

/-- Enters the constants of a table into the arena, the equal ones as one, and notes which entry
stands for which index. References still lead into the table. -/
def collect (table : Table) :
    List (Nat × Constant) → Pool → Array (Option EntryId) →
      Except FormatFault (Pool × Array (Option EntryId))
  | [], pool, ids => .ok (pool, ids)
  | (slot, constant) :: rest, pool, ids =>
    match table.source.keyOf constant with
    | .error fault => .error fault
    | .ok key =>
      let index := (UInt16.ofNat slot).toNat
      match pool.find? key with
      | some existing =>
        collect table rest (pool.addUse existing) (ids.setIfInBounds index (some existing))
      | none =>
        let id := pool.arena.size
        let pool := { pool with
          arena := pool.arena.push (.new pool.id constant 1 0)
          lookup := pool.lookup.insert key id }
        collect table rest pool (ids.setIfInBounds index (some id))

/-- The constant with references into a table replaced by the entries that stand for them. -/
def rebase (ids : Array (Option EntryId)) (constant : Constant) : Except FormatFault Constant :=
  constant.mapRefs fun _ ref => do
    let tableId ← ref.resolved
    match ids[tableId]?.join with
    | some id => return .entry id
    | none => throw (.danglingEntry tableId)

/-- The pool of the constants of a resolved table, in the order of their first occurrence. -/
def ofTable (id : PoolId) (table : Table) : Except FormatFault Pool := do
  let (pool, ids) ← collect table table.entries (empty id) (Array.replicate table.size none)
  let arena ← pool.arena.toList.mapM fun entry => do
    let value ← rebase ids entry.value
    return { entry with value }
  return { pool with arena := arena.toArray }.relayout (List.range arena.length)

/-- Reads a pool, and also gives the number of slots it had. -/
def read (id : PoolId) : Reader (Pool × UInt16) := do
  let count ← Reader.u16
  let raw ← Table.readEntries count
  let table ← raw.resolved
  let pool ← ofTable id table
  return (pool, count)

end Pool

end ClassRom
