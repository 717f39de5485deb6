import ClassRom.Bytes

/-!
# Access flags

Sixteen bits of which only the assigned ones are kept: older compilers set bits that have since been
given another meaning.
-/

namespace ClassRom.Access

set_option autoImplicit false

/-- The flags assigned to classes: public, final, super, interface, abstract, synthetic, annotation,
enum. -/
def classFlags : List UInt16 :=
  [0x0001, 0x0010, 0x0020, 0x0200, 0x0400, 0x1000, 0x2000, 0x4000]

/-- The flags assigned to methods: public, private, protected, static, final, synchronized, bridge,
varargs, native, abstract, strict, synthetic. -/
def methodFlags : List UInt16 :=
  [0x0001, 0x0002, 0x0004, 0x0008, 0x0010, 0x0020, 0x0040, 0x0080, 0x0100, 0x0400, 0x0800, 0x1000]

/-- The flags assigned to fields: public, private, protected, static, final, volatile, transient,
synthetic, enum. -/
def fieldFlags : List UInt16 :=
  [0x0001, 0x0002, 0x0004, 0x0008, 0x0010, 0x0040, 0x0080, 0x1000, 0x4000]

/-- The bits that belong to one of the flags. -/
def keep (flags : List UInt16) (bits : UInt16) : UInt16 :=
  bits &&& flags.foldl (· ||| ·) 0

def read (flags : List UInt16) : Reader UInt16 := do
  let bits ← Reader.u16
  return keep flags bits

end ClassRom.Access
