/-!
The kinds of block and what the kind of a block says about its header.
-/

namespace RecordFile

/-- What a block is for. Table and file blocks head a chain of records. -/
inductive BlockKind
  | generic
  | data
  | table
  | file
  deriving DecidableEq, Inhabited

/-- Bytes of the header every block starts with. -/
def blockHeaderSize : UInt16 := 32

/-- Bytes of the header of a table's first block. -/
def tableHeaderSize : UInt16 := 40

/-- Bytes of the header of a file's first block. -/
def fileHeaderSize : UInt16 := 48

namespace BlockKind

def all : List BlockKind := [generic, data, table, file]

/-- The tag stored in the first two bytes of a header. -/
def code : BlockKind → UInt16
  | generic => 1
  | data => 2
  | table => 3
  | file => 4

def ofCode? (tag : UInt16) : Option BlockKind :=
  all.find? fun kind => kind.code == tag

def name : BlockKind → String
  | generic => "Generic"
  | data => "Data"
  | table => "Table"
  | file => "File"

/-- The header size a new block of this kind gets. -/
def headerSize : BlockKind → UInt16
  | generic | data => blockHeaderSize
  | table => tableHeaderSize
  | file => fileHeaderSize

/-- The header sizes a stored block of this kind may have. The head of a file is stored as a table
whose header has the size of a file header. -/
def storedSizes : BlockKind → List UInt16
  | generic | data => [blockHeaderSize]
  | table => [tableHeaderSize, fileHeaderSize]
  | file => [fileHeaderSize]

/-- Whether headers of this kind carry a table part. -/
def isTableHead : BlockKind → Bool
  | generic | data => false
  | table | file => true

@[simp] theorem ofCode?_code (kind : BlockKind) : ofCode? kind.code = some kind := by
  cases kind <;> rfl

theorem code_of_ofCode? {tag : UInt16} {kind : BlockKind} (h : ofCode? tag = some kind) :
    kind.code = tag := by
  simpa using List.find?_some h

end BlockKind
end RecordFile
