import ClassRom.ClassFile.Access
import ClassRom.ClassFile.Body

/-!
# Class files

Just enough of the format is read to reach the constants and the bodies of methods. The constants
are resolved before anything that refers to them is read.
-/

namespace ClassRom

set_option autoImplicit false

structure Version where
  minor : UInt16
  major : UInt16
  deriving DecidableEq, Repr

namespace Version

/-- The oldest version in common use. -/
def v45_3 : Version := ⟨3, 45⟩

def wire (version : Version) : Bytes := Wire.u16 version.minor ++ Wire.u16 version.major

def read : Reader Version := do
  let minor ← Reader.u16
  let major ← Reader.u16
  return ⟨minor, major⟩

end Version

structure Field where
  access : UInt16
  name : UInt16
  descriptor : UInt16
  attributes : List Attribute
  deriving DecidableEq, Repr

namespace Field

def wire (field : Field) : Bytes :=
  Wire.u16 field.access ++ Wire.u16 field.name ++ Wire.u16 field.descriptor ++
    Wire.counted Attribute.wire field.attributes

def read : Reader Field := do
  let access ← Access.read Access.fieldFlags
  let name ← Reader.u16
  let descriptor ← Reader.u16
  let attributes ← Reader.counted Attribute.read
  return ⟨access, name, descriptor, attributes⟩

end Field

structure Method where
  access : UInt16
  name : UInt16
  descriptor : UInt16
  /-- Absent on methods that are implemented elsewhere. -/
  body : Option Body
  /-- The attributes other than `Code`. -/
  attributes : List Attribute
  deriving DecidableEq, Repr

namespace Method

/-- Reads the body that an attribute holds, if it holds one. Of two bodies the later one counts. -/
def readBody (table : Table) (qualifiedName : String) (body : Option Body)
    (attr : Attribute) : Except FormatFault (Option Body) := do
  let name ← table.utf8 attr.name
  if name = Body.label then
    let body ← Body.read table qualifiedName attr.info
    return some body
  else return body

/-- The body that attributes hold, if one of them holds one. -/
def bodyOf (table : Table) (qualifiedName : String) (attributes : List Attribute) :
    Except FormatFault (Option Body) :=
  attributes.foldlM (readBody table qualifiedName) none

/-- Whether an attribute has the name of a body. -/
def isBody (table : Table) (attr : Attribute) : Bool :=
  match table.utf8 attr.name with
  | .ok name => name = Body.label
  | .error _ => false

def read (table : Table) (className : String) : Reader Method := do
  let access ← Access.read Access.methodFlags
  let nameIndex ← Reader.u16
  let descriptorIndex ← Reader.u16
  let name ← table.utf8 nameIndex
  let descriptor ← table.utf8 descriptorIndex
  let attributes ← Reader.counted Attribute.read
  let body ← bodyOf table s!"{className}.{name}{descriptor}" attributes
  let others := attributes.filter fun attr => !isBody table attr
  return ⟨access, nameIndex, descriptorIndex, body, others⟩

end Method

structure ClassFile where
  version : Version
  /-- The constants of the class, resolved. -/
  constants : Table
  access : UInt16
  thisClass : UInt16
  /-- The superclass, or 0 where there is none. -/
  superClass : UInt16
  interfaces : List UInt16
  fields : List Field
  methods : List Method
  attributes : List Attribute
  deriving DecidableEq, Repr

namespace ClassFile

/-- The word that every class file begins with. -/
def magic : UInt32 := 0xCAFEBABE

def read : Reader ClassFile := do
  let found ← Reader.u32
  if found ≠ magic then
    throw (.badMagic found)
  let version ← Version.read
  let raw ← Table.read
  let constants ← raw.resolved
  let access ← Access.read Access.classFlags
  let thisClass ← Reader.u16
  let className ← constants.className thisClass
  let superClass ← Reader.u16
  let interfaces ← Reader.counted Reader.u16
  let fields ← Reader.counted Field.read
  let methods ← Reader.counted (Method.read constants className)
  let attributes ← Reader.counted Attribute.read
  return ⟨version, constants, access, thisClass, superClass, interfaces, fields, methods,
    attributes⟩

/-- The name of the class. -/
def name (file : ClassFile) : Except FormatFault String := file.constants.className file.thisClass

end ClassFile

end ClassRom
