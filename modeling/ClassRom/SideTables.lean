import ClassRom.Bytes
import ClassRom.Use

/-!
# Side tables

The tables of a method whose rows are keyed by offsets into its code: exception handlers, line
numbers, local variables and stack map frames. Each kind of row has a reader and a writer. The
constants that rows mention are listed by `uses` and replaced by `mapIndices`, in one order.
-/

namespace ClassRom

set_option autoImplicit false

/-- A handler for exceptions raised in the range from `start` up to, but not including, `stop`. -/
structure Handler where
  start : UInt16
  stop : UInt16
  handler : UInt16
  /-- The class of the exceptions caught; all of them, if there is none. -/
  catchType : Option UInt16
  deriving DecidableEq, Repr

namespace Handler

def wire (row : Handler) : Bytes :=
  Wire.u16 row.start ++ Wire.u16 row.stop ++ Wire.u16 row.handler ++
    Wire.u16 (row.catchType.getD 0)

def read : Reader Handler := do
  let start ← Reader.u16
  let stop ← Reader.u16
  let handler ← Reader.u16
  let catchType ← Reader.u16
  return ⟨start, stop, handler, if catchType = 0 then none else some catchType⟩

end Handler

structure Line where
  start : UInt16
  line : UInt16
  deriving DecidableEq, Repr

namespace Line

def wire (row : Line) : Bytes := Wire.u16 row.start ++ Wire.u16 row.line

def read : Reader Line := do
  let start ← Reader.u16
  let line ← Reader.u16
  return ⟨start, line⟩

end Line

/-- A local variable, live for `length` bytes of code from `start` on. -/
structure LocalVariable where
  start : UInt16
  length : UInt16
  name : UInt16
  descriptor : UInt16
  slot : UInt16
  deriving DecidableEq, Repr

namespace LocalVariable

def wire (row : LocalVariable) : Bytes :=
  Wire.u16 row.start ++ Wire.u16 row.length ++ Wire.u16 row.name ++ Wire.u16 row.descriptor ++
    Wire.u16 row.slot

def read : Reader LocalVariable := do
  let start ← Reader.u16
  let length ← Reader.u16
  let name ← Reader.u16
  let descriptor ← Reader.u16
  let slot ← Reader.u16
  return ⟨start, length, name, descriptor, slot⟩

end LocalVariable

inductive VerificationType where
  | top
  | integer
  | float
  | double
  | long
  | null
  | uninitializedThis
  /-- An instance of the class at an index. -/
  | object (index : UInt16)
  /-- What the instruction at an offset created and nothing has initialized yet. -/
  | uninitialized (offset : UInt16)
  deriving DecidableEq, Repr

namespace VerificationType

def wire : VerificationType → Bytes
  | .top => [0]
  | .integer => [1]
  | .float => [2]
  | .double => [3]
  | .long => [4]
  | .null => [5]
  | .uninitializedThis => [6]
  | .object index => 7 :: Wire.u16 index
  | .uninitialized offset => 8 :: Wire.u16 offset

def read : Reader VerificationType := do
  match ← Reader.u8 with
  | 0 => return .top
  | 1 => return .integer
  | 2 => return .float
  | 3 => return .double
  | 4 => return .long
  | 5 => return .null
  | 6 => return .uninitializedThis
  | 7 => return .object (← Reader.u16)
  | 8 => return .uninitialized (← Reader.u16)
  | tag => throw (.unknownVerificationTag tag)

/-- The type with the index of its class replaced. -/
def mapIndex {m : Type → Type} [Monad m] (f : UInt16 → m UInt16) :
    VerificationType → m VerificationType
  | .object index => return .object (← f index)
  | type => return type

/-- The type with the offset it mentions replaced. -/
def mapOffset {m : Type → Type} [Monad m] (f : UInt16 → m UInt16) :
    VerificationType → m VerificationType
  | .uninitialized offset => return .uninitialized (← f offset)
  | type => return type

/-- The class that the type mentions. -/
def index? : VerificationType → Option UInt16
  | .object index => some index
  | _ => none

end VerificationType

/-- Everything the verifier knows at one offset. -/
structure Frame where
  offset : UInt16
  locals : List VerificationType
  stack : List VerificationType
  deriving DecidableEq, Repr

namespace Frame

def wire (row : Frame) : Bytes :=
  Wire.u16 row.offset ++ Wire.counted VerificationType.wire row.locals ++
    Wire.counted VerificationType.wire row.stack

def read : Reader Frame := do
  let offset ← Reader.u16
  let locals ← Reader.counted VerificationType.read
  let stack ← Reader.counted VerificationType.read
  return ⟨offset, locals, stack⟩

end Frame

structure SideTables where
  handlers : List Handler
  lines : Option (List Line)
  locals : Option (List LocalVariable)
  frames : Option (List Frame)
  deriving DecidableEq, Repr

namespace SideTables

/-- Names of the tables, as attributes and in messages. -/
def handlersName : String := "exception table"
def linesName : String := "LineNumberTable"
def localsName : String := "LocalVariableTable"
def framesName : String := "StackMap"

def readHandlers : Reader (List Handler) := Reader.counted Handler.read
def readLines : Reader (List Line) := Reader.counted Line.read
def readLocals : Reader (List LocalVariable) := Reader.counted LocalVariable.read
def readFrames : Reader (List Frame) := Reader.counted Frame.read

/-- The constants that the tables mention, each with the offset of the row that mentions it. -/
def uses (tables : SideTables) : List Use :=
  (tables.handlers.flatMap fun row =>
    row.catchType.toList.map fun index => ⟨row.handler.toNat, index, false⟩) ++
  ((tables.locals.getD []).flatMap fun row =>
    [⟨row.start.toNat, row.name, false⟩, ⟨row.start.toNat, row.descriptor, false⟩]) ++
  ((tables.frames.getD []).flatMap fun row =>
    (row.locals ++ row.stack).filterMap fun type =>
      type.index?.map fun index => ⟨row.offset.toNat, index, false⟩)

/-- The tables with every constant index replaced by what `f` makes of it and of the offset of its
row. -/
def mapIndices {m : Type → Type} [Monad m] (f : Nat → UInt16 → m UInt16) (tables : SideTables) :
    m SideTables := do
  let handlers ← tables.handlers.mapM fun row => do
    let catchType ← row.catchType.mapM (f row.handler.toNat)
    return { row with catchType }
  let locals ← tables.locals.mapM fun rows => rows.mapM fun row => do
    let name ← f row.start.toNat row.name
    let descriptor ← f row.start.toNat row.descriptor
    return { row with name, descriptor }
  let frames ← tables.frames.mapM fun rows => rows.mapM fun row => do
    let locals ← row.locals.mapM (·.mapIndex (f row.offset.toNat))
    let stack ← row.stack.mapM (·.mapIndex (f row.offset.toNat))
    return { row with locals, stack }
  return { tables with handlers, locals, frames }

end SideTables

end ClassRom
