import ClassRom.Pool

/-!
# Layout of pools

Sorting and compaction choose a new order of entries and lay them out afresh from slot 1. Only the
first 255 indices fit into a one-byte operand, so entries used by such operands go first.
-/

namespace ClassRom

set_option autoImplicit false

/-- Inserts before the first item that is no heavier. -/
def insertByWeight (weight : EntryId → Nat) (id : EntryId) : List EntryId → List EntryId
  | [] => [id]
  | head :: rest =>
    if weight id < weight head then head :: insertByWeight weight id rest else id :: head :: rest

/-- Heaviest first; items of one weight keep their order. -/
def sortByWeight (weight : EntryId → Nat) (ids : List EntryId) : List EntryId :=
  ids.foldr (insertByWeight weight) []

namespace Pool

/-- Lays out the given entries in order and no others. -/
def relayout (pool : Pool) (order : List EntryId) : Pool :=
  order.foldl place
    { pool with
      arena := pool.arena.map fun entry => { entry with index := none }
      slots := #[none] }

def ldcWeight (pool : Pool) (id : EntryId) : Nat := (pool.get? id).elim 0 (·.ldcUses.value)

/-- Moves the entries most used by one-byte operands to the front. -/
def sortByLdcUse (pool : Pool) : Pool :=
  pool.relayout (sortByWeight pool.ldcWeight pool.order)

def isUsed (pool : Pool) (id : EntryId) : Bool := (pool.get? id).any (0 < ·.uses.value)

/-- Deletes the entries without uses and closes the gaps. Also gives the number of slots freed. -/
def compact (pool : Pool) : Nat × Pool :=
  if pool.order.all pool.isUsed then
    (0, pool)
  else
    let kept := { pool with lookup := pool.lookup.filter fun _ id => pool.isUsed id }.relayout
      (pool.order.filter pool.isUsed)
    (pool.size - kept.size, kept)

end Pool

end ClassRom
