import ClassRom.Constant.Ref
import ClassRom.Text

/-!
# Constants

Numbers are kept as their bits, so that equality is bitwise: two NaNs with the same bits are one
constant, the two zeros are two. The references of a constant are always visited in the order in
which they are written.
-/

namespace ClassRom

set_option autoImplicit false

inductive MemberKind where
  | field
  | method
  | interfaceMethod
  deriving DecidableEq, Repr

def MemberKind.name : MemberKind → String
  | .field => "Field"
  | .method => "Method"
  | .interfaceMethod => "InterfaceMethod"

inductive Constant where
  | utf8 (text : Text)
  | integer (bits : UInt32)
  | float (bits : UInt32)
  | long (bits : UInt64)
  | double (bits : UInt64)
  | string (text : Ref)
  | classRef (name : Ref)
  | nameAndType (name descriptor : Ref)
  | member (kind : MemberKind) (owner signature : Ref)
  deriving DecidableEq, Repr

/-- Whether a constant is of the kind that a reference asks for. -/
def RefKind.accepts : RefKind → Constant → Bool
  | .utf8, .utf8 _ => true
  | .classRef, .classRef _ => true
  | .nameAndType, .nameAndType _ _ => true
  | _, _ => false

namespace Constant

/-- The tag byte that introduces the constant in a class file. -/
def tag : Constant → UInt8
  | .utf8 _ => 1
  | .integer _ => 3
  | .float _ => 4
  | .long _ => 5
  | .double _ => 6
  | .classRef _ => 7
  | .string _ => 8
  | .member .field _ _ => 9
  | .member .method _ _ => 10
  | .member .interfaceMethod _ _ => 11
  | .nameAndType _ _ => 12

/-- Eight-byte numbers take two slots of a table, everything else takes one. -/
def isWide : Constant → Bool
  | .long _ => true
  | .double _ => true
  | _ => false

/-- The number of slots the constant takes. -/
def width (constant : Constant) : Nat := if constant.isWide then 2 else 1

/-- The references of a constant, each with the kind it asks for. -/
def refs : Constant → List (RefKind × Ref)
  | .string text => [(.utf8, text)]
  | .classRef name => [(.utf8, name)]
  | .nameAndType name descriptor => [(.utf8, name), (.utf8, descriptor)]
  | .member _ owner signature => [(.classRef, owner), (.nameAndType, signature)]
  | _ => []

/-- The constant with each reference replaced by what `f` makes of it. -/
def mapRefs {m : Type → Type} [Monad m] (f : RefKind → Ref → m Ref) : Constant → m Constant
  | .string text => do
    return .string (← f .utf8 text)
  | .classRef name => do
    return .classRef (← f .utf8 name)
  | .nameAndType name descriptor => do
    let name ← f .utf8 name
    return .nameAndType name (← f .utf8 descriptor)
  | .member kind owner signature => do
    let owner ← f .classRef owner
    return .member kind owner (← f .nameAndType signature)
  | constant => return constant

end Constant

/-- The entry a reference was resolved to. -/
def Ref.resolved : Ref → Except FormatFault EntryId
  | .entry id => .ok id
  | .index i => .error (.unresolved i)

end ClassRom
