/-!
Paths of files as they are written: components between slashes.
-/

namespace RecordFile.Path

/-- The size of the longest path that can be followed, in bytes. -/
def maxSize : Nat := 4095

/-- The size of the longest name that a file or directory can have, in bytes. -/
def maxNameSize : Nat := 255

/-- The parts of a path between its slashes. -/
def parts : List Char → List (List Char)
  | [] => [[]]
  | c :: rest =>
    if c = '/' then [] :: parts rest
    else
      match parts rest with
      | [] => [[c]]
      | part :: others => (c :: part) :: others

/-- The components of a path, in order. Slashes side by side count as one. -/
def components (path : String) : List String :=
  ((parts path.toList).filter fun part => part ≠ []).map String.ofList

/-- Whether a path starts at the root and not at the working directory. -/
def isAbsolute (path : String) : Bool := path.toList.head? == some '/'

/-- Whether a path ends in a slash, by which it asks for a directory. -/
def endsInSlash (path : String) : Bool := path.toList.getLast? == some '/'

/-- The last component of a path. -/
def fileName (path : String) : String := (components path).getLastD ""

end RecordFile.Path
