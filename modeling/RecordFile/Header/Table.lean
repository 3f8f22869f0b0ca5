import RecordFile.Header.Block

/-!
The header of a table's first block: a block header, the size of a record and the number of the last
record given out, in 40 bytes.
-/

namespace RecordFile

structure TableHeader where
  block : BlockHeader
  /-- Bytes of one record, its presence byte left out. -/
  recordSize : UInt32
  /-- The last record number given out; 0 while there is none. -/
  lastRecord : UInt32 := 0
  deriving DecidableEq, Inhabited

namespace TableHeader

def encode (t : TableHeader) : List UInt8 :=
  t.block.encode ++
  LittleEndian.encode 4 t.recordSize.toNat ++
  LittleEndian.encode 4 t.lastRecord.toNat

/-- A stored count: a signed word that must not be negative. -/
def decodeCount (defect : Int → HeaderDefect) (bits : Nat) : Except HeaderDefect UInt32 :=
  if 0x80000000 ≤ bits then .error (defect (LittleEndian.signed 0x80000000 bits)) else .ok (UInt32.ofNat bits)

/-- Reads the first 40 of `bytes`, which may also be the start of a file header. -/
def decode (bytes : List UInt8) : Except HeaderDefect TableHeader := do
  needBytes tableHeaderSize bytes
  let block ← BlockHeader.decode bytes
  unless block.kind.isTableHead do throw (.noTablePart block.kind)
  let recordSize ← decodeCount .negativeRecordSize (LittleEndian.field bytes 32 4)
  let lastRecord ← decodeCount .negativeLastRecord (LittleEndian.field bytes 36 4)
  return { block, recordSize, lastRecord }

@[simp] theorem length_encode (t : TableHeader) : t.encode.length = 40 := by
  simp [encode]

/-- The encoding as a buffer of its exact size. -/
def encodeVector (t : TableHeader) : Vector UInt8 tableHeaderSize.toNat :=
  ⟨t.encode.toArray, t.length_encode⟩

end TableHeader
end RecordFile
