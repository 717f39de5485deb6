import ClassRom.Bytes

/-!
# Modified UTF-8

The form texts have inside class files. One to three bytes stand for one UTF-16 unit: no byte is
zero, because NUL takes two bytes, and a supplementary character is written as its two surrogates.
Reading is laxer than writing: it accepts a zero byte and groups longer than their value needs.
-/

namespace ClassRom.ModifiedUtf8

set_option autoImplicit false

/-- The shortest group for a unit, except that NUL takes two bytes. -/
def encodeUnit (unit : UInt16) : Bytes :=
  let code := unit.toNat
  if code ≠ 0 ∧ code < 0x80 then
    [UInt8.ofNat code]
  else if code < 0x800 then
    [UInt8.ofNat (0xC0 + code / 64), UInt8.ofNat (0x80 + code % 64)]
  else
    [UInt8.ofNat (0xE0 + code / 4096), UInt8.ofNat (0x80 + code / 64 % 64),
      UInt8.ofNat (0x80 + code % 64)]

def encodeUnits (units : List UInt16) : Bytes := units.flatMap encodeUnit

/-- The bytes of a character, six of them from U+10000 on. -/
def encodeChar (c : Char) : Bytes :=
  let code := c.toNat
  if code ≠ 0 ∧ code < 0x80 then
    [UInt8.ofNat code]
  else if code < 0x800 then
    [UInt8.ofNat (0xC0 + code / 64), UInt8.ofNat (0x80 + code % 64)]
  else if code < 0x10000 then
    [UInt8.ofNat (0xE0 + code / 4096), UInt8.ofNat (0x80 + code / 64 % 64),
      UInt8.ofNat (0x80 + code % 64)]
  else
    [0xED, UInt8.ofNat (0xA0 + (code / 65536 - 1)), UInt8.ofNat (0x80 + code / 1024 % 64),
      0xED, UInt8.ofNat (0xB0 + code / 64 % 16), UInt8.ofNat (0x80 + code % 64)]

def encodeChars (chars : List Char) : Bytes := chars.flatMap encodeChar

/-- A byte `10xxxxxx`, which only occurs behind the first byte of a group. -/
def isContinuation (byte : UInt8) : Bool := 0x80 ≤ byte && byte < 0xC0

/-- Decodes groups behind the units already read, which are kept latest first. -/
def decodeFrom : Bytes → List UInt16 → Option (List UInt16)
  | [], done => some done.reverse
  | a :: rest, done =>
    if a < 0x80 then
      decodeFrom rest (UInt16.ofNat a.toNat :: done)
    else if 0xC0 ≤ a && a < 0xE0 then
      match rest with
      | b :: rest =>
        if isContinuation b then
          decodeFrom rest (UInt16.ofNat ((a.toNat - 0xC0) * 64 + (b.toNat - 0x80)) :: done)
        else none
      | [] => none
    else if 0xE0 ≤ a && a < 0xF0 then
      match rest with
      | b :: c :: rest =>
        if isContinuation b && isContinuation c then
          decodeFrom rest
            (UInt16.ofNat ((a.toNat - 0xE0) * 4096 + (b.toNat - 0x80) * 64 + (c.toNat - 0x80)) ::
              done)
        else none
      | _ => none
    else none

/-- The units of a sequence of groups, if the bytes are one. -/
def decode? (bytes : Bytes) : Option (List UInt16) := decodeFrom bytes []

end ClassRom.ModifiedUtf8
