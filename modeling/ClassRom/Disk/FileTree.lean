import ClassRom.Disk

/-!
# File trees in memory

Files and directories by the names on the way down to them. Paths are followed one name at a time,
and only directories can be gone through. Names have at most 255 bytes, whole paths at most 4095, and
neither may hold a NUL. A path that is absolute or climbs above the root leaves the tree; out there
is one directory with nothing in it but what was put there since.
-/

namespace ClassRom

set_option autoImplicit false

structure FileTree where
  files : List (List String × Bytes)
  /-- The directories other than the root and the one outside. -/
  directories : List (List String)

namespace FileTree

/-- The directory outside the tree. -/
def outside : List String := [".."]

def isDirectory (tree : FileTree) (node : List String) : Bool :=
  node.isEmpty || node = outside || tree.directories.contains node

def file? (tree : FileTree) (node : List String) : Option Bytes := tree.files.lookup node

/-- A name that leads to a directory that is there whatever the tree holds. -/
def isDot (name : String) : Bool := name = "." || name = ".."

/-- The directory above another. -/
def above (directory : List String) : List String :=
  if directory.isEmpty || directory = outside then outside else directory.dropLast

/-- The node that a name leads to from a directory. -/
def child (directory : List String) (name : String) : Except DiskFault (List String) :=
  if name = "" ∨ name = "." then .ok directory
  else if name = ".." then .ok (above directory)
  else if 255 < name.utf8ByteSize then .error .nameTooLong
  else .ok (directory ++ [name])

/-- The directory that a name leads to from another. -/
def enter (tree : FileTree) (directory : List String) (name : String) :
    Except DiskFault (List String) := do
  let node ← child directory name
  if tree.isDirectory node then
    return node
  throw (if (tree.file? node).isSome then .notADirectory else .notFound)

/-- Where the last name of a path stands. -/
structure Place where
  directory : List String
  name : String
  /-- Whether a slash follows the name, so that it has to be a directory's. -/
  slash : Bool

/-- Finds the place of a path. All directories above it have to be there. -/
def place (tree : FileTree) (path : String) : Except DiskFault Place := do
  if path.contains '\x00' then
    throw .nulInName
  if path.isEmpty then
    throw .notFound
  if 4095 < path.utf8ByteSize then
    throw .nameTooLong
  let start := if path.startsWith "/" then outside else []
  match (Path.pieces path).reverse.dropWhile (·.isEmpty) with
  | [] => return ⟨start, ".", true⟩
  | name :: rest =>
    let directory ← rest.reverse.foldlM tree.enter start
    return ⟨directory, name, path.endsWith "/"⟩

/-- The node that a path leads to, whether or not there is something. -/
def locate (tree : FileTree) (path : String) : Except DiskFault (List String) := do
  let place ← tree.place path
  child place.directory place.name

def read (tree : FileTree) (path : String) : Except DiskFault Bytes := do
  let place ← tree.place path
  let node ← child place.directory place.name
  if tree.isDirectory node then
    throw .isADirectory
  match tree.file? node with
  | some bytes => if place.slash then throw .notADirectory else return bytes
  | none => throw .notFound

/-- Whether a path leads to a directory. -/
def holdsDirectory (tree : FileTree) (path : String) : Bool :=
  match tree.locate path with
  | .ok node => tree.isDirectory node
  | .error _ => false

def makeDirectory (tree : FileTree) (path : String) : Except DiskFault FileTree := do
  let place ← tree.place path
  if isDot place.name then
    throw .alreadyExists
  let node ← child place.directory place.name
  if tree.isDirectory node || (tree.file? node).isSome then
    throw .alreadyExists
  return { tree with directories := node :: tree.directories }

/-- Writes a file, in place of the one that may be there. -/
def write (tree : FileTree) (path : String) (bytes : Bytes) : Except DiskFault FileTree := do
  let place ← tree.place path
  if place.slash || isDot place.name then
    throw .isADirectory
  let node ← child place.directory place.name
  if tree.isDirectory node then
    throw .isADirectory
  return { tree with files := (node, bytes) :: tree.files.filter (·.1 ≠ node) }

/-- The tree of the given files and the directories they need. -/
def ofFiles (files : List (String × Bytes)) : FileTree :=
  let nodes := files.map fun (path, bytes) => (Path.names path, bytes)
  let directories := nodes.flatMap fun (node, _) =>
    (List.range node.length).filterMap fun n => if n = 0 then none else some (node.take n)
  ⟨nodes, directories⟩

/-- The files of the tree with the paths that lead to them from the root. -/
def toFiles (tree : FileTree) : List (String × Bytes) :=
  (tree.files.filter fun (node, _) => !outside.isPrefixOf node).map fun (node, bytes) =>
    ("/".intercalate node, bytes)

/-- Keeps the tree that an operation leaves behind. -/
def update (operation : FileTree → Except DiskFault FileTree) :
    StateM FileTree (Except DiskFault Unit) := do
  match operation (← get) with
  | .error fault => return .error fault
  | .ok tree =>
    set tree
    return .ok ()

/-- The tree as a disk. -/
def disk : Disk (StateM FileTree) where
  read path := return (← get).read path
  isDirectory path := return (← get).holdsDirectory path
  makeDirectory path := update (·.makeDirectory path)
  write path bytes := update (·.write path bytes)

end FileTree

end ClassRom
