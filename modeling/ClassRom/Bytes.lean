import ClassRom.Fault

/-!
# Bytes, big-endian words and readers

A reader takes a value off the front of its input and hands on the rest. Words are composed from
their halves, most significant first, so that each reader is the inverse of the writer of its name.
A list is preceded by its length as a sixteen-bit word.
-/

namespace ClassRom

set_option autoImplicit false

universe u
variable {α : Type} {ε : Type u}

abbrev Bytes := List UInt8

abbrev Reader := StateT Bytes (Except FormatFault)

namespace Wire

def u8 (n : UInt8) : Bytes := [n]

def u16 (n : UInt16) : Bytes := [UInt8.ofNat (n.toNat / 256), UInt8.ofNat n.toNat]

def u32 (n : UInt32) : Bytes := u16 (UInt16.ofNat (n.toNat / 65536)) ++ u16 (UInt16.ofNat n.toNat)

def u64 (n : UInt64) : Bytes :=
  u32 (UInt32.ofNat (n.toNat / 4294967296)) ++ u32 (UInt32.ofNat n.toNat)

/-- The length of a list modulo 65536, then its items. -/
def counted (item : α → Bytes) (items : List α) : Bytes :=
  u16 (UInt16.ofNat items.length) ++ items.flatMap item

end Wire

namespace Reader

def u8 : Reader UInt8
  | [] => .error .truncatedInput
  | byte :: rest => .ok (byte, rest)

def u16 : Reader UInt16 := do
  let high ← u8
  let low ← u8
  return UInt16.ofNat (high.toNat * 256 + low.toNat)

def u32 : Reader UInt32 := do
  let high ← u16
  let low ← u16
  return UInt32.ofNat (high.toNat * 65536 + low.toNat)

def u64 : Reader UInt64 := do
  let high ← u32
  let low ← u32
  return UInt64.ofNat (high.toNat * 4294967296 + low.toNat)

/-- Exactly `n` bytes. -/
def take (n : Nat) : Reader Bytes := fun input =>
  let chunk := input.take n
  if chunk.length = n then .ok (chunk, input.drop n) else .error .truncatedInput

/-- Reads `n` more items behind those already read, which are kept latest first. -/
def manyFrom (item : Reader α) : Nat → List α → Bytes → Except FormatFault (List α × Bytes)
  | 0, done, input => .ok (done.reverse, input)
  | n + 1, done, input =>
    match item input with
    | .error fault => .error fault
    | .ok (value, rest) => manyFrom item n (value :: done) rest

/-- Exactly `n` items. -/
def many (item : Reader α) (n : Nat) : Reader (List α) := manyFrom item n []

/-- A sixteen-bit length, then that many items. -/
def counted (item : Reader α) : Reader (List α) := do
  let length ← u16
  many item length.toNat

end Reader

/-- What writing put out, and the fault that cut it short, if one did. -/
structure Output (ε : Type u) where
  bytes : Bytes
  fault : Option ε

namespace Output

/-- Chunks go out in order until the first one that failed. -/
def ofChunks (chunks : List (Except ε Bytes)) : Output ε where
  bytes := (chunks.takeWhile (·.isOk)).flatMap fun
    | .ok bytes => bytes
    | .error _ => []
  fault := chunks.findSome? fun
    | .ok _ => none
    | .error fault => some fault

end Output

end ClassRom
