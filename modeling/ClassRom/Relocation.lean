import ClassRom.Bytecode
import ClassRom.Pool
import ClassRom.Pool.Handle
import ClassRom.Relocation.OffsetMap
import ClassRom.SideTables

/-!
# Relocation

Makes the code and the side tables of a method refer to constants by their final
index in a pool that no longer changes. First every constant is found. Then the code is copied one
instruction at a time, operands are replaced where the copies landed, and table offsets follow.
Nothing is written back unless both steps succeed, but code that passed the first step is not
relocated again.
-/

namespace ClassRom

set_option autoImplicit false

namespace Relocation

/-- The final index of a constant that is used at some offset of a method. -/
def finalIndex (pool : Pool) (map : HandleMap) (method : String) (offset : Nat) (index : UInt16) :
    Except Fault UInt16 := do
  let handle ← map.lookup method offset index
  if handle.pool ≠ pool.id then
    throw (.consistency (.foreignSharedConstant method offset handle.pool))
  match pool.get? handle.entry with
  | none => throw (.format (.danglingEntry handle.entry))
  | some entry =>
    match entry.index with
    | none => throw (.consistency (.deletedConstant method offset index))
    | some final => return UInt16.ofNat final

/-- The final index for a one-byte operand. -/
def singleIndex (pool : Pool) (map : HandleMap) (method : String) (offset : Nat)
    (index : UInt16) : Except Fault UInt8 := do
  let final ← finalIndex pool map method offset index
  if 255 < final.toNat then
    throw (.overflow method offset final)
  return final.toUInt8

/-- What a method will hold once its constants are found. -/
structure Operands where
  singles : List (Nat × UInt8)
  doubles : List (Nat × UInt16)
  tables : SideTables

/-- Finds the final index of every constant that a method uses. -/
def operands (pool : Pool) (map : HandleMap) (unit : Bytecode) (tables : SideTables) :
    Except Fault Operands := do
  let singles ← unit.singleUses.mapM fun use => do
    let final ← singleIndex pool map unit.method use.offset use.index
    return (use.offset, final)
  let doubles ← unit.doubleUses.mapM fun use => do
    let final ← finalIndex pool map unit.method use.offset use.index
    return (use.offset, final)
  let tables ← tables.mapIndices (finalIndex pool map unit.method)
  return ⟨singles, doubles, tables⟩

/-- Code copied instruction by instruction. -/
structure Copy where
  code : Array UInt8
  /-- The offsets of the copies, latest first. -/
  boundaries : List Nat
  /-- Where the instructions landed. -/
  offsets : OffsetMap

/-- Copies the instructions that start at the given offsets behind those already copied. Each reaches
up to the next one, the last up to the end of the code. -/
def copyFrom (code : Array UInt8) : List Nat → Copy → Copy
  | [], copy => copy
  | start :: rest, ⟨copied, boundaries, offsets⟩ =>
    let landed := copied.size
    copyFrom code rest
      { code := copied ++ code.extract start (rest.headD code.size)
        boundaries := landed :: boundaries
        offsets := offsets.insert start landed }

def copy (unit : Bytecode) : Copy :=
  let copied := copyFrom unit.code unit.boundaries ⟨#[], [], OffsetMap.ofLength unit.code.size⟩
  { copied with offsets := copied.offsets.insert unit.code.size copied.code.size }

/-- How code is named where a table is asked for. -/
def codeName : String := "code"

/-- Replaces a one-byte operand. -/
def patchSingle (map : OffsetMap) (method : String) (code : Array UInt8) (operand : Nat × UInt8) :
    Except Fault (Array UInt8) := do
  let start ← map.instruction method codeName operand.1
  return code.setIfInBounds (start + 1) operand.2

/-- Replaces a two-byte operand. -/
def patchDouble (map : OffsetMap) (method : String) (code : Array UInt8) (operand : Nat × UInt16) :
    Except Fault (Array UInt8) := do
  let start ← map.instruction method codeName operand.1
  let high := UInt8.ofNat (operand.2.toNat / 256)
  let low := UInt8.ofNat operand.2.toNat
  return (code.setIfInBounds (start + 1) high).setIfInBounds (start + 2) low

/-- An offset as a sixteen-bit word. -/
def narrow (method : String) (offset : Nat) : Except Fault UInt16 :=
  if offset ≤ 65535 then .ok (UInt16.ofNat offset)
  else .error (.format (.codeTooLong method offset))

def instruction (map : OffsetMap) (method table : String) (offset : UInt16) :
    Except Fault UInt16 := do
  narrow method (← map.instruction method table offset.toNat)

def rangeEnd (map : OffsetMap) (method table : String) (offset : Nat) : Except Fault UInt16 := do
  narrow method (← map.rangeEnd method table offset)

def handler (map : OffsetMap) (method : String) (row : Handler) : Except Fault Handler := do
  let start ← instruction map method SideTables.handlersName row.start
  let stop ← rangeEnd map method SideTables.handlersName row.stop.toNat
  let handler ← instruction map method SideTables.handlersName row.handler
  return { row with start, stop, handler }

def line (map : OffsetMap) (method : String) (row : Line) : Except Fault Line := do
  let start ← instruction map method SideTables.linesName row.start
  return { row with start }

def localVariable (map : OffsetMap) (method : String) (row : LocalVariable) :
    Except Fault LocalVariable := do
  let start ← instruction map method SideTables.localsName row.start
  let stop ← rangeEnd map method SideTables.localsName (row.start.toNat + row.length.toNat)
  return { row with start, length := stop - start }

def frame (map : OffsetMap) (method : String) (row : Frame) : Except Fault Frame := do
  let offset ← instruction map method SideTables.framesName row.offset
  let locals ← row.locals.mapM (·.mapOffset (instruction map method SideTables.framesName))
  let stack ← row.stack.mapM (·.mapOffset (instruction map method SideTables.framesName))
  return ⟨offset, locals, stack⟩

/-- Moves every offset of the side tables to its image. -/
def sideTables (map : OffsetMap) (method : String) (tables : SideTables) :
    Except Fault SideTables := do
  let handlers ← tables.handlers.mapM (handler map method)
  let lines ← tables.lines.mapM fun rows => rows.mapM (line map method)
  let locals ← tables.locals.mapM fun rows => rows.mapM (localVariable map method)
  let frames ← tables.frames.mapM fun rows => rows.mapM (frame map method)
  return ⟨handlers, lines, locals, frames⟩

/-- The method with its constants replaced and its offsets moved. -/
def apply (unit : Bytecode) (operands : Operands) : Except Fault (Bytecode × SideTables) := do
  let copied := copy unit
  let code ← operands.singles.foldlM (patchSingle copied.offsets unit.method) copied.code
  let code ← operands.doubles.foldlM (patchDouble copied.offsets unit.method) code
  let tables ← sideTables copied.offsets unit.method operands.tables
  let boundaries := copied.boundaries.reverse
  return ({ unit with code, boundaries, progress := .relocated }, tables)

end Relocation

/-- Relocates a method against a pool, through the handles its class got when it was merged. -/
def relocate (pool : Pool) (map : HandleMap) (unit : Bytecode) (tables : SideTables) :
    Except Fault Unit × Bytecode × SideTables :=
  match unit.progress with
  | .unscanned => (.error (.consistency (.notScanned unit.method)), unit, tables)
  | .indicesResolved => (.error (.consistency (.alreadyRelocated unit.method)), unit, tables)
  | .relocated => (.error (.consistency (.alreadyRelocated unit.method)), unit, tables)
  | .scanned =>
    match Relocation.operands pool map unit tables with
    | .error fault => (.error fault, unit, tables)
    | .ok operands =>
      match Relocation.apply unit operands with
      | .error fault => (.error fault, { unit with progress := .indicesResolved }, tables)
      | .ok (relocated, tables) => (.ok (), relocated, tables)

end ClassRom
