import ClassRom.Text.ModifiedUtf8
import ClassRom.Text.Utf16

/-!
# Texts of constants

A class file may hold an unpaired surrogate, which no string can. Such a text is kept as its units.
A decoded text is kept as a string whenever it is one, so that equality of decoded texts is equality
of content.
-/

namespace ClassRom

set_option autoImplicit false

inductive Text where
  | unicode (string : String)
  | raw (units : List UInt16)
  deriving DecidableEq, Repr

namespace Text

/-- The text as a string, if it is kept as one. -/
def string? : Text → Option String
  | .unicode string => some string
  | .raw _ => none

def ofUnits (units : List UInt16) : Text :=
  match Utf16.decode? units with
  | some chars => .unicode (String.ofList chars)
  | none => .raw units

/-- The UTF-16 units of a text. -/
def toUnits : Text → List UInt16
  | .unicode string => Utf16.encode string.toList
  | .raw units => units

def encode : Text → Bytes
  | .unicode string => ModifiedUtf8.encodeChars string.toList
  | .raw units => ModifiedUtf8.encodeUnits units

def decode? (bytes : Bytes) : Option Text := (ModifiedUtf8.decode? bytes).map ofUnits

/-- The text as shown to people: U+FFFD stands for each unpaired surrogate. -/
def display : Text → String
  | .unicode string => string
  | .raw units => String.ofList (Utf16.decodeLossy units)

end Text

end ClassRom
