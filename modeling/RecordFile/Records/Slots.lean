import RecordFile.Allocation

/-!
Where the records of a table lie. The slots of a table fill the blocks of its chain from the end of
each header on, so a record's number alone tells its place.
-/

namespace RecordFile

/-- Bytes of a slot: a record and its presence byte. -/
def TableHeader.slotSize (t : TableHeader) : Except Fault Nat :=
  if t.recordSize = 0 then .error .variableLength
  else .ok (t.recordSize.toNat + presenceSize)

/-- How many whole slots fit into a block. -/
def BlockHeader.slots (block : BlockHeader) (slotSize : Nat) : Nat := block.payload / slotSize

/-- How many records of a table fit into a block. -/
def TableHeader.capacity (t : TableHeader) (block : BlockHeader) : Except Fault Nat := do
  return block.slots (← t.slotSize)

/-- The record number after the last one given out. -/
def TableHeader.nextRecord (t : TableHeader) : Except Fault UInt32 :=
  if 0x80000000 ≤ t.lastRecord.toNat + 1 then .error (.recordOverflow (t.lastRecord.toNat + 1))
  else .ok (t.lastRecord + 1)

/-- The size of a data block for so many records: the smallest multiple of the chunk size that holds
them. -/
def growthSize (records slotSize : Nat) (chunkSize : UInt32) : Except Fault UInt32 :=
  let size := roundUp (blockHeaderSize.toNat + records * slotSize) chunkSize.toNat
  if 0x100000000 ≤ size then .error (.recordOverflow records) else .ok (UInt32.ofNat size)

/-- A record number and the offset of its slot. -/
structure Slot where
  record : UInt32
  offset : Nat
  deriving DecidableEq, Inhabited

/-- What the search for a record has come to. -/
inductive Search
  /-- The next block starts at record number `start`. -/
  | searching (start : Nat)
  | found (offset : Nat)
  /-- A block numbers its records otherwise than its place in the chain demands. -/
  | misnumbered (offset stored expected : Nat)
  deriving DecidableEq

/-- Looks for a record in one more block. -/
def Search.step (slotSize target : Nat) (header : Header) (offset : Nat) : Search → ForInStep Search
  | searching start =>
    let block := header.blockPart
    if block.firstRecord ≠ 0 ∧ block.firstRecord.toNat ≠ start then
      .done (.misnumbered offset block.firstRecord.toNat start)
    else if target - start < block.slots slotSize then
      .done (.found (offset + block.headerSize.toNat + (target - start) * slotSize))
    else
      .yield (.searching (start + block.slots slotSize))
  | ended => .done ended

/-- Where a record is, or where a block for it belongs. -/
inductive Place
  | slot (offset : Nat)
  /-- The chain ends at `tail`; a block after it would start at record number `start`. -/
  | beyond (tail start : Nat)
  deriving DecidableEq

end RecordFile
