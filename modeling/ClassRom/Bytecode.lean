import ClassRom.Bytes
import ClassRom.Opcode
import ClassRom.Use

/-!
# Bytecode

The code of a method together with the offsets of its instructions and of those that refer to a
constant. Code moves through its four stages of progress once and in order: what was relocated holds
final indices and is never relocated again.
-/

namespace ClassRom

set_option autoImplicit false

inductive Progress where
  | unscanned
  | scanned
  | indicesResolved
  | relocated
  deriving DecidableEq, Repr

def Progress.name : Progress → String
  | .unscanned => "Unscanned"
  | .scanned => "Scanned"
  | .indicesResolved => "IndicesResolved"
  | .relocated => "Relocated"

structure Bytecode where
  /-- The name of the method, for messages. -/
  method : String
  code : Array UInt8
  /-- The offsets of all instructions, in order. -/
  boundaries : List Nat
  /-- The offsets of instructions with a one-byte constant operand. -/
  singles : List Nat
  /-- The offsets of instructions with a two-byte constant operand. -/
  doubles : List Nat
  progress : Progress
  deriving DecidableEq, Repr

/-- Where the operands of a switch at `offset` begin: the next multiple of four. -/
def switchOperands (offset : Nat) : Nat := (offset + 4) / 4 * 4

/-- The number in the four bytes at `place`, in two's complement. -/
def int32At? (code : Array UInt8) (place : Nat) : Option Int :=
  match code[place]?, code[place + 1]?, code[place + 2]?, code[place + 3]? with
  | some a, some b, some c, some d =>
    let n := ((a.toNat * 256 + b.toNat) * 256 + c.toNat) * 256 + d.toNat
    some (if n < 0x80000000 then n else n - 0x100000000)
  | _, _, _, _ => none

/-- The length of the instruction at `offset`, whose opcode is given. It may reach past the end. -/
def instructionLength (code : Array UInt8) (offset : Nat) (opcode : UInt8) :
    Except ScanCause Nat :=
  match Opcode.length? opcode with
  | some length => .ok length
  | none =>
    let operands := switchOperands offset
    if opcode = Opcode.tableswitch then
      match int32At? code (operands + 4), int32At? code (operands + 8) with
      | some low, some high => .ok (operands + 12 + 4 * (high - low + 1).toNat - offset)
      | _, _ => .error .truncated
    else if opcode = Opcode.lookupswitch then
      match int32At? code (operands + 4) with
      | some pairs => .ok (operands + 8 + 8 * pairs.toNat - offset)
      | none => .error .truncated
    else if opcode = Opcode.wide then
      match code[offset + 1]? with
      | none => .error .truncated
      | some widened =>
        match Opcode.wideLength? widened with
        | some length => .ok length
        | none => .error (.unknownWideOpcode widened)
    else .error (.unknownOpcode opcode)

theorem instructionLength_pos {code : Array UInt8} {offset : Nat} {opcode : UInt8} {n : Nat}
    (h : instructionLength code offset opcode = .ok n) : 0 < n := by
  have hOperands : offset < switchOperands offset := by unfold switchOperands; omega
  unfold instructionLength at h
  split at h
  · cases h
    exact Opcode.length?_pos ‹_›
  · dsimp only at h
    split at h
    · split at h
      · cases h; omega
      · cases h
    · split at h
      · split at h
        · cases h; omega
        · cases h
      · split at h
        · split at h
          · cases h
          · split at h
            · cases h
              exact Opcode.wideLength?_pos ‹_›
            · cases h
        · cases h

/-- Splits the code from `offset` on into instructions behind those already found, which are kept
latest first. Fails at the first offset where no complete instruction stands. -/
def splitFrom (code : Array UInt8) (offset : Nat) (done : List Nat) :
    Except (Nat × ScanCause) (List Nat) :=
  if h : offset < code.size then
    match hLength : instructionLength code offset code[offset] with
    | .error cause => .error (offset, cause)
    | .ok length =>
      if hFits : offset + length ≤ code.size then
        splitFrom code (offset + length) (offset :: done)
      else .error (offset, .truncated)
  else .ok done.reverse
termination_by code.size - offset
decreasing_by
  have := instructionLength_pos hLength
  omega

/-- The offsets of the instructions that make up the code. -/
def split (code : Array UInt8) : Except (Nat × ScanCause) (List Nat) := splitFrom code 0 []

/-- The constant operand of the instruction at `offset`. -/
def operandAt (code : Array UInt8) (offset : Nat) : Opcode.Operand :=
  match code[offset]? with
  | some opcode => Opcode.operand opcode
  | none => .none

namespace Bytecode

/-- Code that nothing is known about yet. -/
def ofBytes (method : String) (code : Bytes) : Bytecode :=
  ⟨method, code.toArray, [], [], [], .unscanned⟩

/-- Finds the instructions and those among them that refer to constants. -/
def scan (unit : Bytecode) : Except Fault Bytecode :=
  if unit.progress = .indicesResolved ∨ unit.progress = .relocated then
    .error (.consistency (.alreadyRelocated unit.method))
  else if 65535 < unit.code.size then
    .error (.format (.codeTooLong unit.method unit.code.size))
  else
    match split unit.code with
    | .error (offset, cause) => .error (.scan ⟨unit.method, offset, cause⟩)
    | .ok boundaries =>
      .ok { unit with
        boundaries
        singles := boundaries.filter fun offset => operandAt unit.code offset = .single
        doubles := boundaries.filter fun offset => operandAt unit.code offset = .double
        progress := .scanned }

/-- Scans the code where it stands. Code that is refused stays as it is. -/
def scanInPlace (unit : Bytecode) : Except Fault Unit × Bytecode :=
  match unit.scan with
  | .error fault => (.error fault, unit)
  | .ok scanned => (.ok (), scanned)

/-- The one-byte operand of the instruction at `offset`, if the code reaches that far. -/
def single? (unit : Bytecode) (offset : Nat) : Option UInt16 :=
  unit.code[offset + 1]?.map (·.toUInt16)

/-- The two-byte operand of the instruction at `offset`, if the code reaches that far. -/
def double? (unit : Bytecode) (offset : Nat) : Option UInt16 :=
  match unit.code[offset + 1]?, unit.code[offset + 2]? with
  | some high, some low => some (UInt16.ofNat (high.toNat * 256 + low.toNat))
  | _, _ => none

/-- The constants used by one-byte operands. -/
def singleUses (unit : Bytecode) : List Use :=
  unit.singles.map fun offset => ⟨offset, (unit.single? offset).getD 0, true⟩

/-- The constants used by two-byte operands. -/
def doubleUses (unit : Bytecode) : List Use :=
  unit.doubles.map fun offset => ⟨offset, (unit.double? offset).getD 0, false⟩

/-- The constants that the code uses, those with one-byte operands first. -/
def uses (unit : Bytecode) : List Use := unit.singleUses ++ unit.doubleUses

/-- The code as it stands in a class file: its length, then its bytes. -/
def wire (unit : Bytecode) : Bytes :=
  Wire.u32 (UInt32.ofNat unit.code.size) ++ unit.code.toList

end Bytecode

end ClassRom
