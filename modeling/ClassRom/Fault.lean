import ClassRom.Constant.Ref

/-!
# Faults

Everything that can go wrong, as a cause with the facts it reports. The wording stands in the
`message` functions of this module and nowhere else.
-/

namespace ClassRom

set_option autoImplicit false

/-- Bytes that do not form the structure being read, or constants that cannot be written. -/
inductive FormatFault where
  | truncatedInput
  | badMagic (found : UInt32)
  | unknownConstantTag (index : UInt16) (tag : UInt8)
  | unknownVerificationTag (tag : UInt8)
  | malformedUtf8 (index : UInt16)
  | utf8TooLong (length : Nat)
  | constantCount (index count : UInt16)
  | codeTooLong (method : String) (length : Nat)
  | badReference (source : Int) (target : UInt16) (expected : RefKind)
  | unresolved (index : UInt16)
  | danglingEntry (id : EntryId)
  | attributeLength (name : String) (declared consumed : Nat)
  deriving DecidableEq, Repr

/-- Code and tables that disagree with the pool they are relocated against. -/
inductive ConsistencyFault where
  | foreignSharedConstant (method : String) (offset : Nat) (pool : PoolId)
  | deletedConstant (method : String) (offset : Nat) (index : UInt16)
  | unmergedConstant (method : String) (offset : Nat) (index : UInt16)
  | deletedPoolReference (id : EntryId)
  | notInstructionBoundary (method table : String) (offset : Nat)
  | notScanned (method : String)
  | alreadyRelocated (method : String)
  | poolNotFinished (pool : PoolId)
  deriving DecidableEq, Repr

/-- Why the bytes at some offset are no instruction. -/
inductive ScanCause where
  | unknownOpcode (opcode : UInt8)
  | unknownWideOpcode (opcode : UInt8)
  | truncated
  deriving DecidableEq, Repr

/-- The first instruction of a method that does not decode. -/
structure ScanFault where
  method : String
  offset : Nat
  cause : ScanCause
  deriving DecidableEq, Repr

/-- Why the system refused an operation on files. -/
inductive DiskFault where
  | notFound
  | alreadyExists
  | notADirectory
  | isADirectory
  | nameTooLong
  /-- No path can hold a NUL, so the system was not even asked. -/
  | nulInName
  | other (code : Nat) (text : String)
  deriving DecidableEq, Repr

inductive Fault where
  | disk (cause : DiskFault)
  | format (cause : FormatFault)
  /-- A one-byte operand cannot hold the final index of its constant. -/
  | overflow (method : String) (offset : Nat) (index : UInt16)
  | consistency (cause : ConsistencyFault)
  | scan (cause : ScanFault)
  /-- A constant that the pool does not hold was added after the pool was locked. -/
  | lockedPool (pool : PoolId) (constant : String)
  /-- The pool would need more than 65535 slots. -/
  | poolOverflow (constant : String) (offset : Nat)
  deriving DecidableEq, Repr

/-- A fault of a whole run, pinned to the class being processed where there is one. -/
inductive ImageFault where
  | plain (fault : Fault)
  | inClass (className : String) (fault : Fault)
  deriving DecidableEq, Repr

/-- Lowercase hexadecimal digits, filled with zeros up to a width. -/
def hexDigits (width n : Nat) : String :=
  let digits := Nat.toDigits 16 n
  String.ofList (List.replicate (width - digits.length) '0' ++ digits)

/-- How a pool is named in messages. -/
def poolName (id : PoolId) : String := s!"PoolId({id})"

/-- How an entry is named in messages. -/
def entryName (id : EntryId) : String := s!"EntryId({id})"

def FormatFault.message : FormatFault → String
  | .truncatedInput => "unexpected end of input"
  | .badMagic found => "bad class file magic 0x" ++ hexDigits 8 found.toNat
  | .unknownConstantTag index tag => s!"unknown constant tag {tag} at index {index}"
  | .unknownVerificationTag tag => s!"unknown stack map type tag {tag}"
  | .malformedUtf8 index => s!"malformed modified UTF-8 at index {index}"
  | .utf8TooLong length => s!"{length} bytes of modified UTF-8 do not fit in a constant"
  | .constantCount index count =>
    s!"constant at index {index} does not fit in constant_pool_count {count}"
  | .codeTooLong method length =>
    s!"code of {method} is {length} bytes long, more than the 65535 allowed"
  | .badReference source target expected =>
    s!"constant #{source} refers to #{target}, which is not a {expected.name}"
  | .unresolved index => s!"unresolved reference to #{index}"
  | .danglingEntry id => s!"dangling entry {entryName id}"
  | .attributeLength name declared consumed =>
    s!"attribute {name} declared {declared} bytes but {consumed} were read"

def ConsistencyFault.message : ConsistencyFault → String
  | .foreignSharedConstant method offset pool =>
    s!"code reference to shared constant of {poolName pool} in {method} at offset {offset}"
  | .deletedConstant method offset index =>
    s!"reference to deleted constant #{index} in {method} at offset {offset}"
  | .unmergedConstant method offset index =>
    s!"reference to unmerged constant #{index} in {method} at offset {offset}"
  | .deletedPoolReference id => s!"pool entry refers to deleted {entryName id}"
  | .notInstructionBoundary method table offset =>
    s!"{table} offset {offset} in {method} is not an instruction boundary"
  | .notScanned method => s!"code of {method} was never scanned"
  | .alreadyRelocated method => s!"code of {method} was already relocated"
  | .poolNotFinished pool => s!"{poolName pool} was never successfully finished"

def ScanFault.message (fault : ScanFault) : String :=
  match fault.cause with
  | .unknownOpcode opcode =>
    let byte := hexDigits 2 opcode.toNat
    s!"unknown opcode 0x{byte} in {fault.method} at offset {fault.offset}"
  | .unknownWideOpcode opcode =>
    let byte := hexDigits 2 opcode.toNat
    s!"unknown wide opcode 0x{byte} in {fault.method} at offset {fault.offset}"
  | .truncated =>
    s!"instruction in {fault.method} at offset {fault.offset} runs past the end of the code"

/-- The number that the system has for the cause. -/
def DiskFault.code? : DiskFault → Option Nat
  | .notFound => some 2
  | .alreadyExists => some 17
  | .notADirectory => some 20
  | .isADirectory => some 21
  | .nameTooLong => some 36
  | .nulInName => none
  | .other code _ => some code

/-- The cause that has a number. -/
def DiskFault.ofCode (code : Nat) (text : String) : DiskFault :=
  ([.notFound, .alreadyExists, .notADirectory, .isADirectory, .nameTooLong].find?
    fun fault => fault.code? = some code).getD (.other code text)

def DiskFault.text : DiskFault → String
  | .notFound => "No such file or directory"
  | .alreadyExists => "File exists"
  | .notADirectory => "Not a directory"
  | .isADirectory => "Is a directory"
  | .nameTooLong => "File name too long"
  | .nulInName => "file name contained an unexpected NUL byte"
  | .other _ text => text

def DiskFault.message (fault : DiskFault) : String :=
  match fault.code? with
  | some code => s!"{fault.text} (os error {code})"
  | none => fault.text

def Fault.message : Fault → String
  | .disk cause => s!"IO error: {cause.message}"
  | .format cause => s!"format error: {cause.message}"
  | .overflow method offset index =>
    s!"ldc subscript out of range in {method} at offset {offset}: " ++
      s!"final index {index} does not fit in a byte"
  | .consistency cause => s!"consistency error: {cause.message}"
  | .scan cause => s!"scan error: {cause.message}"
  | .lockedPool pool constant => s!"cannot add {constant} to locked constant pool {poolName pool}"
  | .poolOverflow constant offset =>
    s!"constant pool overflow adding {constant} at offset {offset}"

def ImageFault.message : ImageFault → String
  | .plain fault => fault.message
  | .inClass className fault => s!"{className}: {fault.message}"

end ClassRom
