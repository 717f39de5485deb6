import ClassRom.Bytecode
import ClassRom.ClassFile.Attribute
import ClassRom.SideTables
import ClassRom.Table

/-!
# Method bodies

The data of a `Code` attribute: bytecode, its exception handlers, and nested attributes. Nested
attributes that hold side tables are read, of two with one name the later one; all others are kept
as they are.
-/

namespace ClassRom

set_option autoImplicit false

structure Body where
  maxStack : UInt16
  maxLocals : UInt16
  bytecode : Bytecode
  tables : SideTables
  /-- The nested attributes that hold no side table. -/
  attributes : List Attribute
  deriving DecidableEq, Repr

namespace Body

/-- The name of the attribute that holds a body. -/
def label : String := "Code"

/-- Puts the side table that an attribute holds, if it holds one, in its place. -/
def readNested (table : Table) (tables : SideTables) (attr : Attribute) :
    Except FormatFault SideTables := do
  let name ← table.utf8 attr.name
  if name = SideTables.linesName then
    let rows ← Attribute.parse name SideTables.readLines attr.info
    return { tables with lines := some rows }
  else if name = SideTables.localsName then
    let rows ← Attribute.parse name SideTables.readLocals attr.info
    return { tables with locals := some rows }
  else if name = SideTables.framesName then
    let rows ← Attribute.parse name SideTables.readFrames attr.info
    return { tables with frames := some rows }
  else return tables

/-- The side tables that nested attributes hold, beside the exception handlers. -/
def sideTables (table : Table) (handlers : List Handler) (nested : List Attribute) :
    Except FormatFault SideTables :=
  nested.foldlM (readNested table) ⟨handlers, none, none, none⟩

/-- Whether an attribute has the name of a side table. -/
def isSideTable (table : Table) (attr : Attribute) : Bool :=
  match table.utf8 attr.name with
  | .ok name =>
    name = SideTables.linesName || name = SideTables.localsName || name = SideTables.framesName
  | .error _ => false

/-- Reads a body of the named method. -/
def reader (table : Table) (method : String) : Reader Body := do
  let maxStack ← Reader.u16
  let maxLocals ← Reader.u16
  let length ← Reader.u32
  if 65535 < length.toNat then
    throw (.codeTooLong method length.toNat)
  let code ← Reader.take length.toNat
  let handlers ← SideTables.readHandlers
  let nested ← Reader.counted Attribute.read
  let tables ← sideTables table handlers nested
  let attributes := nested.filter fun attr => !isSideTable table attr
  return ⟨maxStack, maxLocals, Bytecode.ofBytes method code, tables, attributes⟩

/-- Reads the data of a `Code` attribute. -/
def read (table : Table) (method : String) (info : Bytes) : Except FormatFault Body :=
  Attribute.parse label (reader table method) info

end Body

end ClassRom
