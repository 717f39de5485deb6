/-!
# Paths

A path is a text of names with slashes between them. An empty name and a dot stand for the directory
they are in, so that they add nothing to what comes before them. Only a dot at the very beginning
counts as a name of its own.
-/

namespace ClassRom

set_option autoImplicit false

namespace Path

/-- The path of a file in a directory. An absolute name stands for itself. -/
def join (directory name : String) : String :=
  if directory.isEmpty || name.startsWith "/" then name
  else if directory.endsWith "/" then directory ++ name
  else directory ++ "/" ++ name

/-- What stands between the slashes of a path. -/
def pieces (path : String) : List String := path.splitOn "/"

/-- The names of a path, without those that stand for the directory they are in. -/
def names (path : String) : List String := (pieces path).filter fun name => name ≠ "" ∧ name ≠ "."

/-- The beginnings of a path that end in a name, longest first. Pieces are given and returned in
reverse. -/
def beginnings : List String → List (List String)
  | [] => []
  | piece :: rest =>
    if piece = "" ∨ (piece = "." ∧ rest ≠ []) then beginnings rest
    else (piece :: rest) :: beginnings rest

/-- The directories that have to be there before what a path names can be, innermost first. -/
def ancestors (path : String) : List String :=
  (beginnings (pieces path).reverse).tail.map fun names => "/".intercalate names.reverse

end Path

end ClassRom
