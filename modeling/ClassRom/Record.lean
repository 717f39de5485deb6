import ClassRom.Constant
import ClassRom.Fault
import ClassRom.Text.Quoted

/-!
# Records

Faults and constants written out field by field, for readers who want every detail. A value without
fields is its name, one with unnamed fields has them in parentheses, one with named fields in braces.
-/

namespace ClassRom

set_option autoImplicit false

namespace Record

def tuple (name : String) (fields : List String) : String :=
  name ++ "(" ++ ", ".intercalate fields ++ ")"

def fields (name : String) (fields : List (String × String)) : String :=
  let shown := fields.map fun (label, value) => label ++ ": " ++ value
  name ++ " \x7b " ++ ", ".intercalate shown ++ " \x7d"

end Record

def Ref.record : Ref → String
  | .index i => Record.tuple "Index" [toString i]
  | .entry id => Record.tuple "Entry" [entryName id]

def Text.record : Text → String
  | .unicode string => Record.tuple "Utf8" [quoted string]
  | .raw units =>
    Record.tuple "InvalidUtf8" ["[" ++ ", ".intercalate (units.map toString) ++ "]"]

def Constant.record : Constant → String
  | .utf8 text => Record.tuple "Utf8Text" [text.record]
  | .integer bits =>
    Record.fields "IntegerOrFloat" [("kind", "Integer"), ("raw", toString bits)]
  | .float bits => Record.fields "IntegerOrFloat" [("kind", "Float"), ("raw", toString bits)]
  | .long bits => Record.fields "LongOrDouble" [("kind", "Long"), ("raw", toString bits)]
  | .double bits => Record.fields "LongOrDouble" [("kind", "Double"), ("raw", toString bits)]
  | .string text => Record.fields "StringRef" [("text", text.record)]
  | .classRef name => Record.fields "ClassRef" [("name", name.record)]
  | .nameAndType name descriptor =>
    Record.fields "NameAndType" [("name", name.record), ("descriptor", descriptor.record)]
  | .member kind owner signature =>
    Record.fields "MemberRef"
      [("kind", kind.name), ("owner", owner.record), ("sig", signature.record)]

/-- The place in a method that a fault is about. -/
def Record.place (method : String) (offset : Nat) : List (String × String) :=
  [("method", quoted method), ("offset", toString offset)]

/-- The name of the cause, without what it reports. -/
def FormatFault.name : FormatFault → String
  | .truncatedInput => "TruncatedInput"
  | .badMagic _ => "BadMagic"
  | .unknownConstantTag _ _ => "UnknownConstantTag"
  | .unknownVerificationTag _ => "UnknownVerificationTag"
  | .malformedUtf8 _ => "MalformedUtf8"
  | .utf8TooLong _ => "Utf8TooLong"
  | .constantCount _ _ => "ConstantCount"
  | .codeTooLong _ _ => "CodeTooLong"
  | .badReference _ _ _ => "BadReference"
  | .unresolved _ => "Unresolved"
  | .danglingEntry _ => "DanglingEntry"
  | .attributeLength _ _ _ => "AttributeLength"

def FormatFault.record (fault : FormatFault) : String :=
  match fault with
  | .truncatedInput => fault.name
  | .badMagic found => Record.tuple fault.name [toString found]
  | .unknownConstantTag index tag =>
    Record.fields fault.name [("index", toString index), ("tag", toString tag)]
  | .unknownVerificationTag tag => Record.tuple fault.name [toString tag]
  | .malformedUtf8 index => Record.fields fault.name [("index", toString index)]
  | .utf8TooLong length => Record.fields fault.name [("length", toString length)]
  | .constantCount index count =>
    Record.fields fault.name [("index", toString index), ("count", toString count)]
  | .codeTooLong method length =>
    Record.fields fault.name [("method", quoted method), ("length", toString length)]
  | .badReference source target expected =>
    Record.fields fault.name
      [("from", toString source), ("target", toString target), ("expected", quoted expected.name)]
  | .unresolved index => Record.tuple fault.name [toString index]
  | .danglingEntry id => Record.tuple fault.name [entryName id]
  | .attributeLength name declared consumed =>
    Record.fields fault.name
      [("name", quoted name), ("declared", toString declared), ("consumed", toString consumed)]

def ConsistencyFault.name : ConsistencyFault → String
  | .foreignSharedConstant _ _ _ => "ForeignSharedConstant"
  | .deletedConstant _ _ _ => "DeletedConstant"
  | .unmergedConstant _ _ _ => "UnmergedConstant"
  | .deletedPoolReference _ => "DeletedPoolReference"
  | .notInstructionBoundary _ _ _ => "NotInstructionBoundary"
  | .notScanned _ => "NotScanned"
  | .alreadyRelocated _ => "AlreadyRelocated"
  | .poolNotFinished _ => "PoolNotFinished"

def ConsistencyFault.record (fault : ConsistencyFault) : String :=
  match fault with
  | .foreignSharedConstant method offset pool =>
    Record.fields fault.name (Record.place method offset ++ [("pool", poolName pool)])
  | .deletedConstant method offset index =>
    Record.fields fault.name (Record.place method offset ++ [("original_index", toString index)])
  | .unmergedConstant method offset index =>
    Record.fields fault.name (Record.place method offset ++ [("original_index", toString index)])
  | .deletedPoolReference id => Record.tuple fault.name [entryName id]
  | .notInstructionBoundary method table offset =>
    Record.fields fault.name
      [("method", quoted method), ("table", quoted table), ("offset", toString offset)]
  | .notScanned method => Record.fields fault.name [("method", quoted method)]
  | .alreadyRelocated method => Record.fields fault.name [("method", quoted method)]
  | .poolNotFinished pool => Record.fields fault.name [("pool", poolName pool)]

def ScanCause.name : ScanCause → String
  | .unknownOpcode _ => "UnknownOpcode"
  | .unknownWideOpcode _ => "UnknownWideOpcode"
  | .truncated => "Truncated"

def ScanFault.record (fault : ScanFault) : String :=
  let place := Record.place fault.method fault.offset
  match fault.cause with
  | .unknownOpcode opcode =>
    Record.fields fault.cause.name (place ++ [("opcode", toString opcode)])
  | .unknownWideOpcode opcode =>
    Record.fields fault.cause.name (place ++ [("opcode", toString opcode)])
  | .truncated => Record.fields fault.cause.name place

/-- The family that the cause belongs to. -/
def DiskFault.kind : DiskFault → String
  | .notFound => "NotFound"
  | .alreadyExists => "AlreadyExists"
  | .notADirectory => "NotADirectory"
  | .isADirectory => "IsADirectory"
  | .nameTooLong => "InvalidFilename"
  | .nulInName => "InvalidInput"
  | .other _ _ => "Uncategorized"

def DiskFault.record (fault : DiskFault) : String :=
  let described := [("kind", fault.kind), ("message", quoted fault.text)]
  match fault.code? with
  | some code => Record.fields "Os" (("code", toString code) :: described)
  | none => Record.fields "Error" described

def Fault.record : Fault → String
  | .disk cause => Record.tuple "IoError" [cause.record]
  | .format cause => Record.tuple "Format" [cause.record]
  | .overflow method offset index =>
    Record.tuple "Overflow"
      [Record.fields "OverflowError" (Record.place method offset ++ [("index", toString index)])]
  | .consistency cause => Record.tuple "Consistency" [cause.record]
  | .scan cause => Record.tuple "Scan" [cause.record]
  | .lockedPool pool constant =>
    Record.tuple "LockedPool"
      [Record.fields "LockedPoolError" [("pool", poolName pool), ("constant", quoted constant)]]
  | .poolOverflow constant offset =>
    Record.fields "ConstantPoolOverflow"
      [("constant", quoted constant), ("offset", toString offset)]

def ImageFault.record : ImageFault → String
  | .plain fault => Record.tuple "Jvm" [fault.record]
  | .inClass className fault =>
    Record.fields "InClass" [("class", quoted className), ("error", fault.record)]

end ClassRom
