import RecordFile.Records.Locate

/-!
Giving out record numbers, and adding tables. A number is given out while the header of its table is
locked, so that no two handles get the same one.
-/

namespace RecordFile.Handle

variable {m : Type → Type} [Monad m] [MonadLiftT (StateM Store) m] {α : Type}

/-- Gives out the next record number of the table at `head`. `body` gets the table's header and the
slot, while the header is locked; the header it returns is written if it commits. The header is
read again after the slot was found, for the chain may have grown by a link in that very block. -/
def reserveWith (h : Handle) (head : Nat)
    (body : TableHeader → Slot → ExceptT Fault m (Outcome α × TableHeader)) : ExceptT Fault m α :=
  h.editing ⟨head, tableHeaderSize.toNat⟩ fun bytes => do
    let table ← perform (orFault (TableHeader.decode bytes.toList) .corruptHeader)
    let record ← table.nextRecord
    let offset ← perform (h.locate head table record)
    let fresh ← perform (h.readTable head)
    let (outcome, edited) ← body fresh { record, offset }
    return (outcome, if outcome.isCommit then edited.encodeVector else bytes)

/-- Gives out the next record number and makes it the table's last. -/
def reserve (h : Handle) (head : Nat) : Action Slot :=
  h.reserveWith (m := StateM Store) head fun table slot =>
    return (.commit slot, { table with lastRecord := slot.record })

/-- Adds a new, empty table to the file. No other block links to it. -/
def addTable (h : Handle) (recordSize : UInt32) : Action Extent := do
  if recordSize = 0 then throw .variableLength
  let room := tableHeaderSize.toNat + (recordSize.toNat + presenceSize)
  let size := roundUp room (← h.chunkSize).toNat
  if 0x100000000 ≤ size then throw (.parameter (.recordTooLarge recordSize))
  h.growing (m := StateM Store) (h.append (.table (UInt32.ofNat size) recordSize))

end RecordFile.Handle
