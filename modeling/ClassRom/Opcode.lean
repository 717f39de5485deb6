/-!
# Opcodes

Instruction lengths and constant operands. Besides the standard instruction set this covers the quick
opcodes that pre-linked code may contain, several of which still carry a constant index.
-/

namespace ClassRom.Opcode

set_option autoImplicit false

def tableswitch : UInt8 := 0xAA
def lookupswitch : UInt8 := 0xAB
def wide : UInt8 := 0xC4

/-- How an instruction refers to a constant: right behind its opcode, or not at all. -/
inductive Operand where
  | none
  | single
  | double
  deriving DecidableEq, Repr

/-- Runs of opcodes with one length: the last opcode of each run, then the length of its
instructions, opcode included. No length is given where it depends on what follows or where no
instruction is assigned. -/
def lengthRuns : List (UInt8 × Option Nat) := [
  (0x0F, some 1), (0x10, some 2), (0x11, some 3), (0x12, some 2), (0x14, some 3), (0x19, some 2),
  (0x35, some 1), (0x3A, some 2), (0x83, some 1), (0x84, some 3), (0x98, some 1), (0xA8, some 3),
  (0xA9, some 2), (0xAB, none), (0xB1, some 1), (0xB8, some 3), (0xBA, some 5), (0xBB, some 3),
  (0xBC, some 2), (0xBD, some 3), (0xBF, some 1), (0xC1, some 3), (0xC3, some 1), (0xC4, none),
  (0xC5, some 4), (0xC7, some 3), (0xC9, some 5), (0xCA, some 1), (0xCB, some 2), (0xD9, some 3),
  (0xDA, some 5), (0xDE, some 3), (0xDF, some 4), (0xE4, some 3), (0xE5, some 1), (0xFF, none)]

/-- The length of an instruction, opcode included, where the opcode alone determines it. -/
def length? (opcode : UInt8) : Option Nat :=
  (lengthRuns.find? (opcode ≤ ·.1)).bind (·.2)

/-- The length of an instruction behind a `wide` byte, that byte included. -/
def wideLength? (opcode : UInt8) : Option Nat :=
  if opcode = 0x84 then some 6
  else if (0x15 ≤ opcode ∧ opcode ≤ 0x19) ∨ (0x36 ≤ opcode ∧ opcode ≤ 0x3A) ∨ opcode = 0xA9 then
    some 4
  else none

/-- Opcodes behind which a one-byte constant index stands. -/
def singleOpcodes : List UInt8 := [0x12, 0xCB]

/-- Opcodes behind which a two-byte constant index stands. Quick field accesses and quick virtual
calls carry offsets instead and are not among them. -/
def doubleOpcodes : List UInt8 := [
  0x13, 0x14, 0xB2, 0xB3, 0xB4, 0xB5, 0xB6, 0xB7, 0xB8, 0xB9, 0xBB, 0xBD, 0xC0, 0xC1, 0xC5,
  0xCC, 0xCD, 0xD7, 0xD9, 0xDA, 0xDD, 0xDE, 0xDF, 0xE0, 0xE1, 0xE2, 0xE3, 0xE4]

def operand (opcode : UInt8) : Operand :=
  if opcode ∈ singleOpcodes then .single
  else if opcode ∈ doubleOpcodes then .double
  else .none

theorem length?_pos {opcode : UInt8} {n : Nat} (h : length? opcode = some n) : 0 < n := by
  have hRuns : ∀ run ∈ lengthRuns, ∀ m, run.2 = some m → 0 < m := by decide
  obtain ⟨run, hFind, hRun⟩ := Option.bind_eq_some_iff.mp h
  exact hRuns run (List.mem_of_find?_eq_some hFind) n hRun

theorem wideLength?_pos {opcode : UInt8} {n : Nat} (h : wideLength? opcode = some n) : 0 < n := by
  unfold wideLength? at h
  split at h
  · cases h; decide
  · split at h
    · cases h; decide
    · cases h

end ClassRom.Opcode
