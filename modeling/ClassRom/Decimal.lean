/-!
# Shortest decimals

A binary floating-point number is written with the fewest digits that read back as the same number.
The reals that round to it form an interval around it; on the grid of `n`-digit decimals only its two
neighbours have to be tried, and the first `n` for which one of them lies in the interval wins. All
arithmetic is exact.
-/

namespace ClassRom.Decimal

set_option autoImplicit false

/-- Widths of the fields of a binary floating-point format. -/
structure BinaryFormat where
  fractionBits : Nat
  exponentBits : Nat

def single : BinaryFormat := ⟨23, 8⟩
def double : BinaryFormat := ⟨52, 11⟩

inductive Binary where
  | nan
  | infinite (negative : Bool)
  /-- The number `significand * 2 ^ exponent`. A `tight` number is a power of two whose lower
  neighbour is half as far away as its upper one. -/
  | finite (negative : Bool) (significand : Nat) (exponent : Int) (tight : Bool)

def Binary.ofBits (format : BinaryFormat) (bits : Nat) : Binary :=
  let fraction := bits % (1 <<< format.fractionBits)
  let biased := bits / (1 <<< format.fractionBits) % (1 <<< format.exponentBits)
  let negative := bits / (1 <<< (format.fractionBits + format.exponentBits)) % 2 = 1
  let bias : Nat := 1 <<< (format.exponentBits - 1)
  let lowest : Int := 2 - bias - format.fractionBits
  if biased = (1 <<< format.exponentBits) - 1 then
    if fraction = 0 then .infinite negative else .nan
  else if biased = 0 then
    .finite negative fraction lowest false
  else
    .finite negative ((1 <<< format.fractionBits) + fraction) (lowest + biased - 1)
      (fraction = 0 && 1 < biased)

/-- A positive number as a fraction, with the ends of the interval of reals that round to it. -/
structure Interval where
  low : Nat
  value : Nat
  high : Nat
  denominator : Nat
  /-- Whether the ends themselves round to the number. -/
  closed : Bool

def Interval.around (significand : Nat) (exponent : Int) (tight : Bool) : Interval :=
  let scale := 1 <<< (exponent - 2).toNat
  { low := (4 * significand - if tight then 1 else 2) * scale
    value := 4 * significand * scale
    high := (4 * significand + 2) * scale
    denominator := 1 <<< (2 - exponent).toNat
    closed := significand % 2 = 0 }

/-- Zeros between the point and the first digit of `n / d`, for a quotient below one. -/
def leadingZeros : Nat → Nat → Nat → Nat
  | 0, _, _ => 0
  | fuel + 1, n, d => if d ≤ n * 10 then 0 else leadingZeros fuel (n * 10) d + 1

/-- The least power of ten above the number, as its exponent. -/
def Interval.magnitude (interval : Interval) : Int :=
  if interval.denominator ≤ interval.value then
    ((Nat.toDigits 10 (interval.value / interval.denominator)).length : Int)
  else
    -(leadingZeros interval.denominator.log2 interval.value interval.denominator : Int)

/-- The decimal of the grid `10 ^ place` that is nearest to the number, if one lies in the interval.
Halfway between two of them the upper one is taken. -/
def Interval.onGrid? (interval : Interval) (place : Int) : Option Nat :=
  let up := Nat.pow 10 (-place).toNat
  let unit := interval.denominator * Nat.pow 10 place.toNat
  let digits := interval.value * up / unit
  let inside (n : Nat) : Bool :=
    if interval.closed then interval.low * up ≤ n * unit && n * unit ≤ interval.high * up
    else interval.low * up < n * unit && n * unit < interval.high * up
  let nearUpper : Bool := unit ≤ 2 * (interval.value * up - digits * unit)
  if inside (digits + 1) && (nearUpper || !inside digits) then some (digits + 1)
  else if inside digits then some digits
  else none

/-- The first grid that has a decimal in the interval, starting from the coarsest. -/
def Interval.shortest (interval : Interval) : Nat → Int → Nat × Int
  | 0, place => ((interval.onGrid? place).getD 0, place)
  | fuel + 1, place =>
    match interval.onGrid? place with
    | some digits => (digits, place)
    | none => interval.shortest fuel (place - 1)

/-- The number `digits * 10 ^ place` without an exponent and without a fraction of zeros. -/
def positional (digits : Nat) (place : Int) : List Char :=
  if 0 ≤ place then
    Nat.toDigits 10 digits ++ List.replicate place.toNat '0'
  else
    let places := (-place).toNat
    let shown := Nat.toDigits 10 digits
    let padded := List.replicate (places + 1 - shown.length) '0' ++ shown
    let whole := padded.take (padded.length - places)
    let fraction := ((padded.drop (padded.length - places)).reverse.dropWhile (· = '0')).reverse
    if fraction.isEmpty then whole else whole ++ '.' :: fraction

/-- The text of a number: its sign is kept on zero too, and there is never an exponent. -/
def Binary.text : Binary → String
  | .nan => "NaN"
  | .infinite negative => if negative then "-inf" else "inf"
  | .finite negative significand exponent tight =>
    let sign := if negative then ['-'] else []
    if significand = 0 then
      String.ofList (sign ++ ['0'])
    else
      let interval := Interval.around significand exponent tight
      let (digits, place) := interval.shortest 20 (interval.magnitude - 1)
      String.ofList (sign ++ positional digits place)

/-- The number that 32 bits stand for. -/
def singleText (bits : UInt32) : String := (Binary.ofBits single bits.toNat).text

/-- The number that 64 bits stand for. -/
def doubleText (bits : UInt64) : String := (Binary.ofBits double bits.toNat).text

end ClassRom.Decimal
