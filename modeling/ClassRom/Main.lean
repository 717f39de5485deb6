import ClassRom.CommandLine

/-!
# The program

Connects the command line to the disk of the machine.
-/

namespace ClassRom

set_option autoImplicit false

/-- The fault behind an error number, which some calls report negated. -/
def DiskFault.ofNumber (number : UInt32) (details : String) : DiskFault :=
  .ofCode (if number < 0x80000000 then number else 0 - number).toNat details

/-- What the system says about a file operation that failed. -/
def DiskFault.ofError : IO.Error → DiskFault
  | .noFileOrDirectory _ number details => .ofNumber number details
  | .alreadyExists _ number details => .ofNumber number details
  | .inappropriateType _ number details => .ofNumber number details
  | .invalidArgument _ number details => .ofNumber number details
  | .permissionDenied _ number details => .ofNumber number details
  | error => .other 0 (toString error)

/-- Runs a file operation and keeps its failure as a value. -/
def onDisk {α : Type} (operation : IO α) : IO (Except DiskFault α) := do
  try
    return .ok (← operation)
  catch error =>
    return .error (.ofError error)

def readFile (path : String) : IO (Except DiskFault Bytes) := onDisk do
  return (← IO.FS.readBinFile path).toList

/-- The disk of the machine. A directory is what refuses to be read because it is one. -/
def Disk.machine : Disk IO where
  read := readFile
  isDirectory path := return (← readFile path) matches .error .isADirectory
  makeDirectory path := onDisk (IO.FS.createDir path)
  write path bytes := onDisk (IO.FS.writeBinFile path ⟨bytes.toArray⟩)

end ClassRom

open ClassRom in
def main (arguments : List String) : IO UInt32 := do
  let outcome ← CommandLine.run Disk.machine arguments
  IO.print outcome.stdout
  IO.eprint outcome.stderr
  return UInt32.ofNat outcome.code
