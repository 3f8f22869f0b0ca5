import RecordFile.Content
import RecordFile.Header.File
import RecordFile.LockTable
import RecordFile.Settings

/-!
Everything that handles share: the files, the open files by descriptor and the locks.
-/

namespace RecordFile

/-- What belongs to one open handle. -/
structure OpenFile where
  /-- The path it was opened by. -/
  path : String
  /-- The location of its file. -/
  location : Location
  /-- The file header as last read or written by this handle. -/
  header : FileHeader
  settings : Settings
  position : Nat := 0
  /-- The number of the last system error met. -/
  lastErrno : Option Int := none
  /-- The regions locked around bodies that have not ended yet. -/
  held : List Region := []
  deriving Inhabited

structure Store where
  files : List (Location × Content) := []
  /-- The directories below their anchors. -/
  directories : List Location := []
  /-- The open files. The place in the list is the descriptor; closing leaves a gap. -/
  opened : List (Option OpenFile) := []
  locks : LockTable := {}
  deriving Inhabited

namespace Store

def content? (s : Store) (location : Location) : Option Content := s.files.lookup location

/-- Gives a file its bytes, whether or not it exists. -/
def put (s : Store) (location : Location) (content : Content) : Store :=
  { s with files := (location, content) :: s.files.filter fun entry => entry.1 != location }

def openFile? (s : Store) (descriptor : Nat) : Option OpenFile := s.opened[descriptor]?.join

/-- The lowest descriptor not in use. -/
def freeDescriptor (s : Store) : Nat := s.opened.findIdx Option.isNone

/-- Opens a file under the lowest free descriptor. -/
def attach (s : Store) (file : OpenFile) : Store :=
  let descriptor := s.freeDescriptor
  if descriptor < s.opened.length then
    { s with opened := s.opened.set descriptor (some file) }
  else
    { s with opened := s.opened ++ [some file] }

def mapOpen (s : Store) (descriptor : Nat) (change : OpenFile → OpenFile) : Store :=
  { s with opened := s.opened.modify descriptor (Option.map change) }

/-- Closes a file, which ends all its locks. -/
def detach (s : Store) (descriptor : Nat) : Store :=
  { s with opened := s.opened.set descriptor none, locks := s.locks.forget descriptor }

/-- Whether there is a directory at a location. The ones that locations are anchored to exist always. -/
def isDirectory (s : Store) (location : Location) : Bool :=
  location.names.isEmpty || s.directories.contains location

/-- The directory that one component of a path leads to. -/
def enter (s : Store) (directory : Location) (component : String) : Except SystemError Location := do
  if Path.maxNameSize < component.utf8ByteSize then throw .nameTooLong
  let location := directory.follow component
  if s.isDirectory location then return location
  if (s.content? location).isSome then throw .notDirectory
  throw .notFound

/-- The directory that the file of a path is in, and the file's name. A path that can only name a
directory is refused once it is known to name one. -/
def approach (s : Store) (path : String) : Except SystemError (Location × String) := do
  if path.toList.contains '\x00' then throw .nulInPath
  if path = "" then throw .notFound
  if Path.maxSize < path.utf8ByteSize then throw .nameTooLong
  let components := Path.components path
  let directory ← components.dropLast.foldlM s.enter (Location.start path)
  match components.getLast? with
  | none | some "." | some ".." => throw .isDirectory
  | some name => return (directory, name)

/-- The location of the existing file at a path. A slash after its name asks for a directory, which no
file is. -/
def find (s : Store) (path : String) : Except SystemError Location := do
  let (directory, name) ← s.approach path
  if Path.maxNameSize < name.utf8ByteSize then throw .nameTooLong
  let location := directory.child name
  if s.isDirectory location then throw .isDirectory
  if (s.content? location).isNone then throw .notFound
  if Path.endsInSlash path then throw .notDirectory
  return location

/-- The location for a file at a path that may not exist yet. Its directory must. A slash after its
name asks for a directory, which creating a file never makes. -/
def locationFor (s : Store) (path : String) : Except SystemError Location := do
  let (directory, name) ← s.approach path
  if Path.endsInSlash path then throw .isDirectory
  if Path.maxNameSize < name.utf8ByteSize then throw .nameTooLong
  let location := directory.child name
  if s.isDirectory location then throw .isDirectory
  return location

end Store
end RecordFile
