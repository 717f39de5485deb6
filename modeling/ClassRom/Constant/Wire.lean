import ClassRom.Constant

/-!
# Constants in class files

A constant is a tag byte followed by its fields. References are written as indices, which only the
container of the constant knows; read constants refer by raw index.
-/

namespace ClassRom.Constant

set_option autoImplicit false

/-- Reads a raw index. -/
def readRef : Reader Ref := do
  return .index (← Reader.u16)

/-- Reads one constant, tag included. The index it will have is only reported in faults. -/
def read (index : UInt16) : Reader Constant := do
  match ← Reader.u8 with
  | 1 =>
    let length ← Reader.u16
    let bytes ← Reader.take length.toNat
    match Text.decode? bytes with
    | some text => return .utf8 text
    | none => throw (.malformedUtf8 index)
  | 3 => return .integer (← Reader.u32)
  | 4 => return .float (← Reader.u32)
  | 5 => return .long (← Reader.u64)
  | 6 => return .double (← Reader.u64)
  | 7 => return .classRef (← readRef)
  | 8 => return .string (← readRef)
  | 9 => return .member .field (← readRef) (← readRef)
  | 10 => return .member .method (← readRef) (← readRef)
  | 11 => return .member .interfaceMethod (← readRef) (← readRef)
  | 12 => return .nameAndType (← readRef) (← readRef)
  | tag => throw (.unknownConstantTag index tag)

/-- The fields of a constant behind its tag. -/
def payload (indexOf : Ref → Except Fault UInt16) : Constant → List (Except Fault Bytes)
  | .utf8 text =>
    let bytes := text.encode
    if bytes.length ≤ 65535 then [.ok (Wire.u16 (UInt16.ofNat bytes.length) ++ bytes)]
    else [.error (.format (.utf8TooLong bytes.length))]
  | .integer bits => [.ok (Wire.u32 bits)]
  | .float bits => [.ok (Wire.u32 bits)]
  | .long bits => [.ok (Wire.u64 bits)]
  | .double bits => [.ok (Wire.u64 bits)]
  | constant => constant.refs.map fun (_, ref) => (indexOf ref).map Wire.u16

/-- The chunks of a constant, tag included. Each reference goes out as the index `indexOf` gives. -/
def chunks (indexOf : Ref → Except Fault UInt16) (constant : Constant) : List (Except Fault Bytes) :=
  .ok (Wire.u8 constant.tag) :: constant.payload indexOf

def write (indexOf : Ref → Except Fault UInt16) (constant : Constant) : Output Fault :=
  Output.ofChunks (constant.chunks indexOf)

end ClassRom.Constant
