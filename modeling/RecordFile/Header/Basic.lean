import RecordFile.Header.File

/-!
Headers of any layout. The first four bytes of a header announce its kind and its size, and the size
tells which layout follows. All numbers are little-endian.

| offset | bytes | field | in |
|---|---|---|---|
| 0 | 2 | kind | every header |
| 2 | 2 | size of the header: 32, 40 or 48 | |
| 4 | 4 | size of the block | |
| 8 | 8 | first record number | |
| 16 | 8 + 8 | link: offset and size of the next block | |
| 32 | 4 | record size | table heads |
| 36 | 4 | last record number | |
| 40 | 4 | mark | file heads |
| 44 | 4 | chunk size | |
-/

namespace RecordFile

inductive Header
  | block (header : BlockHeader)
  | table (header : TableHeader)
  | file (header : FileHeader)
  deriving DecidableEq, Inhabited

namespace Header

/-- The header of a new block. Only table heads use `recordSize`, only file heads `chunkSize`; the
records of a table start at number 1. -/
def fresh (kind : BlockKind) (blockSize recordSize chunkSize : UInt32) : Header :=
  let block := BlockHeader.fresh kind blockSize
  let table : TableHeader := { block := { block with firstRecord := 1 }, recordSize }
  match kind with
  | .generic | .data => .block block
  | .table => .table table
  | .file => .file { table, chunkSize }

/-- The part that all layouts share. -/
def blockPart : Header → BlockHeader
  | block b => b
  | table t => t.block
  | file f => f.table.block

def mapBlock (change : BlockHeader → BlockHeader) : Header → Header
  | block b => .block (change b)
  | table t => .table { t with block := change t.block }
  | file f => .file { f with table := { f.table with block := change f.table.block } }

/-- The part that table and file heads share. -/
def tablePart? : Header → Option TableHeader
  | block _ => none
  | table t => some t
  | file f => some f.table

def size (h : Header) : UInt16 := h.blockPart.headerSize

def next (h : Header) : Option Extent := h.blockPart.next

def encode : Header → List UInt8
  | block b => b.encode
  | table t => t.encode
  | file f => f.encode

/-- The header size that the first four bytes announce, if their kind can have it. -/
def announcedSize (bytes : List UInt8) : Except HeaderDefect UInt16 := do
  if bytes.length < announcementSize then throw (.unannounced bytes.length)
  let kind ← decodeKind (UInt16.ofNat (LittleEndian.field bytes 0 2))
  let size := UInt16.ofNat (LittleEndian.field bytes 2 2)
  unless size ∈ kind.storedSizes do throw (.impossibleSize kind size)
  return size

/-- Reads the layout that the bytes announce. -/
def decode (bytes : List UInt8) : Except HeaderDefect Header := do
  let size ← announcedSize bytes
  if size = blockHeaderSize then return .block (← BlockHeader.decode bytes)
  else if size = tableHeaderSize then return .table (← TableHeader.decode bytes)
  else return .file (← FileHeader.decode bytes)

/-- A buffer too short for the header that should go into it. -/
structure ShortBuffer where
  kind : BlockKind
  available : Nat
  deriving DecidableEq

def ShortBuffer.message (s : ShortBuffer) : String :=
  s!"header buffer of {s.available} bytes cannot hold a {s.kind.name} header " ++
    s!"({s.kind.headerSize.toNat} bytes)"

/-- Overwrites the start of a buffer by the header of a new block. -/
def stamp (buffer : List UInt8) (kind : BlockKind) (blockSize recordSize chunkSize : UInt32) :
    Except ShortBuffer (List UInt8) :=
  if buffer.length < kind.headerSize.toNat then
    .error { kind, available := buffer.length }
  else
    .ok ((fresh kind blockSize recordSize chunkSize).encode ++ buffer.drop kind.headerSize.toNat)

end Header
end RecordFile
