import ClassRom.Bytes

/-!
# Attributes

Named pieces of data on classes, members and code. Most of them are carried along unread; the reader
of one that is understood has to use up all of its bytes.
-/

namespace ClassRom

set_option autoImplicit false

structure Attribute where
  /-- The index of the name. -/
  name : UInt16
  info : Bytes
  deriving DecidableEq, Repr

namespace Attribute

def wire (attr : Attribute) : Bytes :=
  Wire.u16 attr.name ++ Wire.u32 (UInt32.ofNat attr.info.length) ++ attr.info

def read : Reader Attribute := do
  let name ← Reader.u16
  let length ← Reader.u32
  let info ← Reader.take length.toNat
  return ⟨name, info⟩

/-- Reads the data of an attribute, which has to end where the reader stops. -/
def parse {α : Type} (label : String) (reader : Reader α) (info : Bytes) : Except FormatFault α :=
  match reader info with
  | .error fault => .error fault
  | .ok (value, rest) =>
    if rest.isEmpty then .ok value
    else .error (.attributeLength label info.length (info.length - rest.length))

end Attribute

end ClassRom
