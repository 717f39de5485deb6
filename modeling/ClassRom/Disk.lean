import ClassRom.Disk.Path
import ClassRom.Image

/-!
# Disks

The operations on files that an image needs, in any monad: a real disk and a file tree in memory
both provide them. Making a directory together with those above it is built from making one.
-/

namespace ClassRom

set_option autoImplicit false

structure Disk (m : Type → Type) where
  read : String → m (Except DiskFault Bytes)
  isDirectory : String → m Bool
  /-- Makes one directory where nothing stands yet. -/
  makeDirectory : String → m (Except DiskFault Unit)
  write : String → Bytes → m (Except DiskFault Unit)

variable {m : Type → Type} [Monad m]

namespace Disk

/-- Makes a directory unless it is there. -/
def ensure (disk : Disk m) (path : String) : m (Except DiskFault Unit) := do
  match ← disk.makeDirectory path with
  | .error .alreadyExists =>
    return if ← disk.isDirectory path then .ok () else .error .alreadyExists
  | result => return result

/-- Makes directories up to the first that can be made or is there. Those that lack the directory
above them come back, outermost first, before those already found. -/
def climb (disk : Disk m) : List String → List String → m (Except DiskFault (List String))
  | [], missing => return .ok missing
  | path :: above, missing => do
    match ← disk.ensure path with
    | .error .notFound => climb disk above (path :: missing)
    | .error fault => return .error fault
    | .ok _ => return .ok missing

/-- Makes directories one after the other, up to the first that cannot be made. -/
def descend (disk : Disk m) : List String → m (Except DiskFault Unit)
  | [] => return .ok ()
  | path :: below => do
    match ← disk.ensure path with
    | .error fault => return .error fault
    | .ok _ => descend disk below

/-- Makes a directory and those above it, as far as they are missing. The empty path stands for the
directory that is there anyway. -/
def makeDirectories (disk : Disk m) (path : String) : m (Except DiskFault Unit) := do
  if path.isEmpty then
    return .ok ()
  match ← disk.climb (path :: Path.ancestors path) [] with
  | .error fault => return .error fault
  | .ok missing => disk.descend missing

end Disk

namespace Image

/-- Reads a class file and adds the class. -/
def readClass (disk : Disk m) (path : String) (image : Image) :
    m (Except ImageFault Unit × Image) := do
  match ← disk.read path with
  | .error fault => return (.error (.inClass path (.disk fault)), image)
  | .ok bytes =>
    match ClassFile.read bytes with
    | .error fault => return (.error (.inClass path (.format fault)), image)
    | .ok (file, _) => return image.addClass file

/-- Reads class files one after the other, up to the first that cannot be added. -/
def readClasses (disk : Disk m) : List String → Image → m (Except ImageFault Unit × Image)
  | [], image => return (.ok (), image)
  | path :: rest, image => do
    match ← image.readClass disk path with
    | (.error fault, image) => return (.error fault, image)
    | (.ok _, image) => readClasses disk rest image

/-- Saves the finished pool in the output directory and gives the path written. -/
def savePool (disk : Disk m) (image : Image) : m (Except ImageFault String) := do
  if image.stage ≠ .finished then
    return .error image.notFinished
  match ← disk.makeDirectories image.settings.outputDirectory with
  | .error fault => return .error (.plain (.disk fault))
  | .ok _ =>
    let path := Path.join image.settings.outputDirectory image.settings.poolFile
    match image.writePool with
    | ⟨_, some fault⟩ => return .error fault
    | ⟨bytes, none⟩ =>
      match ← disk.write path bytes with
      | .error fault => return .error (.plain (.disk fault))
      | .ok _ => return .ok path

end Image

end ClassRom
