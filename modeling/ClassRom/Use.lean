/-!
# Uses of constants

Everything that keeps a constant alive from outside the pool: an operand of an instruction, an index
in a table of a method, a name in a declaration.
-/

namespace ClassRom

set_option autoImplicit false

structure Use where
  /-- The offset of the instruction or table row, for messages. -/
  offset : Nat
  /-- The index of the constant in the table of its class. -/
  index : UInt16
  /-- Whether the index is the one-byte operand of an instruction. -/
  single : Bool
  deriving DecidableEq, Repr

end ClassRom
