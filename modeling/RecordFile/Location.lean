import RecordFile.Path

/-!
Where files and directories are. A path leads to a location; many paths lead to the same one.
-/

namespace RecordFile

/-- The directory from which the way to a location leads down only. -/
inductive Anchor
  | root
  /-- So many levels above the working directory. -/
  | above (levels : Nat)
  deriving DecidableEq

structure Location where
  anchor : Anchor := .above 0
  /-- The names on the way down from the anchor, the location's own first. -/
  names : List String := []
  deriving DecidableEq, Inhabited

namespace Location

/-- The location of that name in a directory. -/
def child (l : Location) (name : String) : Location := { l with names := name :: l.names }

/-- The directory that a location is in. The root is in itself. -/
def parent : Location → Location
  | { anchor, names := _ :: outer } => { anchor, names := outer }
  | { anchor := .above levels, names := [] } => { anchor := .above (levels + 1) }
  | { anchor := .root, names := [] } => { anchor := .root }

/-- Where one component of a path leads from a directory. -/
def follow (l : Location) (component : String) : Location :=
  if component = "." then l
  else if component = ".." then l.parent
  else l.child component

/-- The directory that a path starts from. -/
def start (path : String) : Location := if Path.isAbsolute path then { anchor := .root } else {}

/-- The locations that a path leads through, from where it starts to the one it leads to. -/
def along (path : String) : List Location :=
  let components := Path.components path
  (List.range (components.length + 1)).map fun n => (components.take n).foldl follow (start path)

/-- The location that a path leads to, if it leads there through directories. -/
def ofPath (path : String) : Location := (Path.components path).foldl follow (start path)

/-- The shortest path to the location; the working directory has an empty one. -/
def name (l : Location) : String :=
  let down := l.names.reverse
  match l.anchor with
  | .root => "/" ++ "/".intercalate down
  | .above levels => "/".intercalate (List.replicate levels ".." ++ down)

end Location
end RecordFile
