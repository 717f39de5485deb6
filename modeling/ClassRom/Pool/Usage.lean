import ClassRom.Bytecode
import ClassRom.Pool
import ClassRom.Pool.Handle

/-!
# Counting uses

Uses are charged to the entries that handles lead to. Charging stops at the first constant that was
not merged; what was charged before it stays.
-/

namespace ClassRom

set_option autoImplicit false

namespace Pool

/-- Charges one use to an entry. -/
def chargeUse (pool : Pool) (id : EntryId) (single : Bool) : Pool :=
  let pool := pool.addUse id
  if single then pool.addLdcUse id else pool

/-- Charges uses at the named place one after the other. -/
def charge (map : HandleMap) (method : String) : List Use → Pool → Except Fault Unit × Pool
  | [], pool => (.ok (), pool)
  | use :: rest, pool =>
    match map.lookup method use.offset use.index with
    | .error fault => (.error fault, pool)
    | .ok handle => charge map method rest (pool.chargeUse handle.entry use.single)

end Pool

/-- Charges every constant operand of scanned code. -/
def Bytecode.charge (unit : Bytecode) (map : HandleMap) (pool : Pool) :
    Except Fault Unit × Pool :=
  if unit.progress = .scanned then pool.charge map unit.method unit.uses
  else (.error (.consistency (.notScanned unit.method)), pool)

end ClassRom
