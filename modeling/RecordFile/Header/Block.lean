import RecordFile.Extent
import RecordFile.Header.Defect
import RecordFile.LittleEndian

/-!
The header that every block starts with: kind, sizes, first record number and the link to the next
block, in 32 bytes.
-/

namespace RecordFile

/-- Bytes from a block's start to its link. -/
def linkOffset : Nat := 16

structure BlockHeader where
  kind : BlockKind
  /-- Bytes from the block's start to its payload. -/
  headerSize : UInt16
  /-- Size of the whole block, header included. -/
  blockSize : UInt32
  /-- The lowest record number in the block; 0 where no records are numbered. -/
  firstRecord : UInt64 := 0
  /-- The block that follows in the chain; none at its tail. -/
  next : Option Extent := none
  deriving DecidableEq, Inhabited

namespace BlockHeader

/-- The header of a new, unlinked block. -/
def fresh (kind : BlockKind) (blockSize : UInt32) : BlockHeader where
  kind
  headerSize := kind.headerSize
  blockSize

/-- Bytes of the block after its header. -/
def payload (h : BlockHeader) : Nat := h.blockSize.toNat - h.headerSize.toNat

def isTail (h : BlockHeader) : Bool := h.next.isNone

/-- A link as two words; no link is two zeros. -/
def encodeLink : Option Extent → List UInt8
  | some e => LittleEndian.encode 8 e.offset.toNat ++ LittleEndian.encode 8 e.size.toNat
  | none => LittleEndian.encode 8 0 ++ LittleEndian.encode 8 0

/-- Reads a link. Both words are signed and must not be negative; offset 0 is no link. -/
def decodeLink (offset size : Nat) : Except HeaderDefect (Option Extent) :=
  if 0x8000000000000000 ≤ offset ∨ 0x8000000000000000 ≤ size then
    .error (.negativeLink (LittleEndian.signed 0x8000000000000000 offset) (LittleEndian.signed 0x8000000000000000 size))
  else if offset = 0 then
    .ok none
  else
    .ok (some { offset := UInt64.ofNat offset, size := UInt64.ofNat size })

def encode (h : BlockHeader) : List UInt8 :=
  LittleEndian.encode 2 h.kind.code.toNat ++
  LittleEndian.encode 2 h.headerSize.toNat ++
  LittleEndian.encode 4 h.blockSize.toNat ++
  LittleEndian.encode 8 h.firstRecord.toNat ++
  encodeLink h.next

/-- Reads the first 32 of `bytes`. -/
def decode (bytes : List UInt8) : Except HeaderDefect BlockHeader := do
  needBytes blockHeaderSize bytes
  let kind ← decodeKind (UInt16.ofNat (LittleEndian.field bytes 0 2))
  let next ← decodeLink (LittleEndian.field bytes linkOffset 8)
    (LittleEndian.field bytes (linkOffset + 8) 8)
  return {
    kind
    headerSize := UInt16.ofNat (LittleEndian.field bytes 2 2)
    blockSize := UInt32.ofNat (LittleEndian.field bytes 4 4)
    firstRecord := UInt64.ofNat (LittleEndian.field bytes 8 8)
    next }

@[simp] theorem length_encodeLink (link : Option Extent) : (encodeLink link).length = 16 := by
  cases link <;> simp [encodeLink]

@[simp] theorem length_encode (h : BlockHeader) : h.encode.length = 32 := by
  simp [encode]

end BlockHeader
end RecordFile
