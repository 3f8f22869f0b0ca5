import RecordFile.Header.Table

/-!
The header of a file's first block: a table header, the file's mark and the chunk size, in 48 bytes.
-/

namespace RecordFile

structure FileHeader where
  table : TableHeader
  /-- Blocks start at, and span, multiples of this many bytes. -/
  chunkSize : UInt32
  deriving DecidableEq, Inhabited

namespace FileHeader

/-- The header of a new file: one table block of one chunk. -/
def fresh (chunkSize recordSize : UInt32) : FileHeader where
  table := {
    block := {
      kind := .table
      headerSize := fileHeaderSize
      blockSize := chunkSize
      firstRecord := 1 }
    recordSize }
  chunkSize

def encode (f : FileHeader) : List UInt8 :=
  f.table.encode ++ magic ++ LittleEndian.encode 4 f.chunkSize.toNat

/-- The bytes where a file header has its mark. -/
def markOf (bytes : List UInt8) : List UInt8 := (bytes.drop 40).take 4

/-- Reads the first 48 of `bytes`. -/
def decode (bytes : List UInt8) : Except HeaderDefect FileHeader := do
  needBytes fileHeaderSize bytes
  let table ← TableHeader.decode bytes
  unless markOf bytes = magic do throw (.badMagic (markOf bytes))
  return { table, chunkSize := UInt32.ofNat (LittleEndian.field bytes 44 4) }

@[simp] theorem length_encode (f : FileHeader) : f.encode.length = 48 := by
  simp [encode, magic]

end FileHeader
end RecordFile
