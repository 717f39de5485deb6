/-!
# UTF-16

Code units and the scalar values they spell. A surrogate that is not half of a pair spells nothing:
it stays in the sequence as a gap, so that the callers decide what a gap means.
-/

namespace ClassRom.Utf16

set_option autoImplicit false

def isHigh (unit : UInt16) : Bool := 0xD800 ≤ unit && unit < 0xDC00

def isLow (unit : UInt16) : Bool := 0xDC00 ≤ unit && unit < 0xE000

/-- The scalar value of a surrogate pair. -/
def pair (high low : UInt16) : Char :=
  Char.ofNat (0x10000 + (high.toNat - 0xD800) * 1024 + (low.toNat - 0xDC00))

/-- One unit below U+10000 and a surrogate pair from there on. -/
def ofChar (c : Char) : List UInt16 :=
  if c.toNat < 0x10000 then
    [UInt16.ofNat c.toNat]
  else
    [UInt16.ofNat (0xD800 + (c.toNat - 0x10000) / 1024),
      UInt16.ofNat (0xDC00 + (c.toNat - 0x10000) % 1024)]

def encode (chars : List Char) : List UInt16 := chars.flatMap ofChar

/-- Reads units behind the scalar values already read, which are kept latest first. -/
def scalarsFrom : List UInt16 → List (Option Char) → List (Option Char)
  | [], done => done.reverse
  | [unit], done =>
    if isHigh unit || isLow unit then (none :: done).reverse
    else (some (Char.ofNat unit.toNat) :: done).reverse
  | unit :: next :: rest, done =>
    if isHigh unit then
      if isLow next then scalarsFrom rest (some (pair unit next) :: done)
      else scalarsFrom (next :: rest) (none :: done)
    else if isLow unit then scalarsFrom (next :: rest) (none :: done)
    else scalarsFrom (next :: rest) (some (Char.ofNat unit.toNat) :: done)

/-- The scalar values of a sequence of units, with `none` for each unpaired surrogate. -/
def scalars (units : List UInt16) : List (Option Char) := scalarsFrom units []

/-- The text that units spell, if no surrogate among them is unpaired. -/
def decode? (units : List UInt16) : Option (List Char) := (scalars units).mapM id

/-- The text that units spell, with U+FFFD for each unpaired surrogate. -/
def decodeLossy (units : List UInt16) : List Char :=
  (scalars units).map (·.getD (Char.ofNat 0xFFFD))

end ClassRom.Utf16
