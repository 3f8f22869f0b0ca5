import RecordFile.Handle

/-!
Blocks in a file: making room for them at its end, writing and reading their headers, and linking one
after another. Nothing here takes a lock.
-/

namespace RecordFile

/-- The smallest multiple of `chunk` that is at least `bytes`. -/
def roundUp (bytes chunk : Nat) : Nat := (bytes + chunk - 1) / chunk * chunk

/-- The extent of a block that starts on a chunk boundary and is not empty. -/
def Extent.checked (offset size : UInt64) (chunkSize : UInt32) : Except Fault Extent :=
  if chunkSize = 0 then .error (.settings .zeroChunk)
  else if offset.toNat % chunkSize.toNat ≠ 0 then .error (.misplacedBlock offset.toNat chunkSize)
  else if size = 0 then .error (.parameter (.emptyBlock offset.toNat))
  else .ok { offset, size }

/-- What a new block is to be. -/
structure BlockSpec where
  kind : BlockKind
  size : UInt32
  /-- Used by table heads only. -/
  recordSize : UInt32 := 0
  /-- The lowest record number in the block; 0 leaves what the kind has. -/
  firstRecord : UInt64 := 0
  deriving DecidableEq, Inhabited

namespace BlockSpec

/-- A block that continues the chain of a table. -/
def data (size : UInt32) (firstRecord : UInt64) : BlockSpec := { kind := .data, size, firstRecord }

/-- The first block of a new table. -/
def table (size recordSize : UInt32) : BlockSpec := { kind := .table, size, recordSize }

/-- Refuses blocks that are no multiple of the chunk size, do not hold their header, or have records
whose size cannot be stored. -/
def check (spec : BlockSpec) (chunkSize : UInt32) : Except Fault Unit :=
  if spec.size = 0 ∨ spec.size % chunkSize ≠ 0 then
    .error (.parameter (.unevenBlock spec.size chunkSize))
  else if spec.size.toNat < spec.kind.headerSize.toNat then
    .error (.parameter (.blockTooSmall spec.size spec.kind))
  else if 0x80000000 ≤ spec.recordSize.toNat then
    .error (.parameter (.recordSize spec.recordSize))
  else
    .ok ()

def header (spec : BlockSpec) (chunkSize : UInt32) : Header :=
  let fresh := Header.fresh spec.kind spec.size spec.recordSize chunkSize
  if spec.firstRecord = 0 then fresh
  else fresh.mapBlock fun block => { block with firstRecord := spec.firstRecord }

end BlockSpec

namespace Handle

/-- Whether an offset is a chunk boundary. -/
def isAligned (h : Handle) (offset : Nat) : Action Bool := do
  return offset % (← h.chunkSize).toNat == 0

def requireAligned (h : Handle) (offset : Nat) : Action Unit := do
  unless ← h.isAligned offset do
    throw (.misplacedBlock offset (← h.chunkSize))

/-- Adds bytes at the end of the file, which must be a chunk boundary, and returns the old end. Only
the last byte is written. The stream is left at the old end. -/
def extend (h : Handle) (bytes : Nat) : Action Nat := do
  if bytes = 0 then throw (.parameter .emptyExtension)
  let stop ← h.seekEnd
  h.requireAligned stop
  if 0x10000000000000000 ≤ stop + (bytes - 1) then throw (.parameter (.extensionOverflow bytes stop))
  h.writeAt (stop + (bytes - 1)) [0]
  h.seek stop
  return stop

/-- Adds a block at the end of the file. It is not linked to any other. -/
def append (h : Handle) (spec : BlockSpec) : Action Extent := do
  let chunkSize ← h.chunkSize
  spec.check chunkSize
  h.keepingPosition do
    let offset ← h.extend spec.size.toNat
    h.writeAt offset (spec.header chunkSize).encode
    return { offset := UInt64.ofNat offset, size := spec.size.toUInt64 }

/-- The header of the block at `offset`. Its kind and size are read first, then as many bytes as
they announce. -/
def readHeader (h : Handle) (offset : Nat) : Action Header := do
  let announcement ← h.readAt offset announcementSize
  if announcement.length < announcementSize then
    throw (.incompleteRead offset announcementSize announcement.length)
  let size ← orFault (Header.announcedSize announcement) .corruptHeader
  let bytes ← h.readAt offset size.toNat
  if bytes.length < size.toNat then
    throw (.incompleteRead offset size.toNat bytes.length)
  orFault (Header.decode bytes) .corruptHeader

/-- The header of the table whose first block is at `offset`. -/
def readTable (h : Handle) (offset : Nat) : Action TableHeader := do
  match (← h.readHeader offset).tablePart? with
  | some table => return table
  | none => throw (.corruptHeader (.notTableHead offset))

/-- Links a block after the one at `parent`, which must have no link yet. -/
def link (h : Handle) (parent : Nat) (next : Extent) : Action Unit := do
  let bytes ← h.readExactly parent blockHeaderSize.toNat
  let header ← orFault (BlockHeader.decode bytes) .corruptHeader
  if let some existing := header.next then
    throw (.alreadyLinked parent existing.start)
  h.writeAt parent { header with next := some next }.encode

/-- Adds a block at the end of the file and links it after the block at `tail`. Nothing is written
if that block has a link already. -/
def appendAfter (h : Handle) (tail : Nat) (spec : BlockSpec) : Action Extent := do
  if let some existing := (← h.readHeader tail).next then
    throw (.alreadyLinked tail existing.start)
  let block ← h.append spec
  h.link tail block
  return block

end Handle
end RecordFile
