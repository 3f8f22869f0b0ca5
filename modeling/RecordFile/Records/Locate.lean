import RecordFile.Chain
import RecordFile.Locking
import RecordFile.Records.Slots

/-!
From a record's number to the offset of its slot. A chain that is too short grows by one block, under
a lock that lets one handle at a time make the file longer.
-/

namespace RecordFile

/-- Where the region of a file header that serializes growth starts. -/
def growthOffset : Nat := tableHeaderSize.toNat

/-- The length of that region. -/
def growthLength : Nat := fileHeaderSize.toNat - tableHeaderSize.toNat

namespace Handle

/-- Looks for the record number `target` from the block at `cursor` on, which starts at `start`. -/
def search (h : Handle) (cursor slotSize target start : Nat) : Action Place := do
  let (ending, result) ← h.walk (m := StateM Store) cursor (Search.searching start)
    fun header offset result => pure (result.step slotSize target header offset)
  match result with
  | .found offset => return .slot offset
  | .misnumbered offset stored expected =>
    throw (.corruptChain (.misnumbered offset stored expected))
  | .searching start => return .beyond ending.offset start

variable {m : Type → Type} [Monad m] [MonadLiftT (StateM Store) m] {α : Type}

/-- Runs `op` under the lock that lets one handle at a time make the file longer. -/
def growing (h : Handle) (op : ExceptT Fault m α) : ExceptT Fault m α :=
  h.retrying (fun _ => pure ()) (h.locked ⟨growthOffset, growthLength⟩ op)

/-- The offset of a record's slot in the chain at `chain`. If the chain is too short, one data block
is added, just large enough to hold the record. The caller holds the lock on the table's header. -/
def locate (h : Handle) (chain : Nat) (table : TableHeader) (record : UInt32) : Action Nat := do
  let slotSize ← table.slotSize
  if record = 0 then throw (.parameter .recordZero)
  match ← h.search chain slotSize record.toNat 1 with
  | .slot offset => return offset
  | .beyond tail start =>
    let size ← growthSize (record.toNat - start + 1) slotSize (← h.chunkSize)
    let block ← h.growing (m := StateM Store) (h.appendAfter tail (.data size (UInt64.ofNat start)))
    match ← h.search block.start slotSize record.toNat start with
    | .slot offset => return offset
    | .beyond tail _ => throw (.corruptChain (.unresolved tail record.toNat))

end Handle
end RecordFile
