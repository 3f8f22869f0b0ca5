import RecordFile.Allocation

/-!
Walking the chain of blocks that starts at an offset. Every header is read from the file when its
turn comes, so a walk sees the links as they are then. A chain with more links than the file has
chunks must come back to a block it passed.
-/

namespace RecordFile

/-- How a walk ended, and at which block. -/
inductive Ending
  /-- The visitor stopped. -/
  | stopped (offset : Nat)
  /-- The block has no link. -/
  | tail (offset : Nat)
  deriving DecidableEq

def Ending.offset : Ending → Nat
  | stopped offset | tail offset => offset

namespace Handle

/-- Refuses a link that leads off the chunk boundaries or past the end of a file of `length` bytes. -/
def checkLink (h : Handle) (parent : Nat) (next : Extent) (length : Nat) : Action Unit := do
  unless ← h.isAligned next.start do
    throw (.corruptChain (.misalignedLink parent next.start))
  if length < next.stop then
    throw (.corruptChain (.linkPastEnd parent next length))

variable {m : Type → Type} [Monad m] [MonadLiftT (StateM Store) m] {α : Type}

/-- The rest of a walk, at `offset` after `steps` links. `length` is the file's length as last
looked up: it is looked up again when a link ends past it, for the file may have grown. -/
def walkFrom (h : Handle) (start : Nat) (visit : Header → Nat → α → m (ForInStep α)) :
    Nat → Nat → Nat → Nat → α → ExceptT Fault m (Ending × α)
  | 0, _, _, _, _ => throw (.corruptChain (.endless start))
  | fuel + 1, steps, length, offset, seen => do
    let header ← perform (h.readHeader offset)
    match ← unfailing (visit header offset seen) with
    | .done seen => return (.stopped offset, seen)
    | .yield seen =>
      match header.next with
      | none => return (.tail offset, seen)
      | some next =>
        let length ← if length < next.stop then perform h.length else pure length
        perform (h.checkLink offset next length)
        let chunkSize ← perform h.chunkSize
        if length / chunkSize.toNat < steps + 1 then
          throw (.corruptChain (.endless start))
        walkFrom h start visit fuel (steps + 1) length next.start seen

/-- Visits the blocks of the chain at `start` in order, handing on what the visitor returns, until
it stops or the chain ends. No file has room for more than `maxOffset` links. -/
def walk (h : Handle) (start : Nat) (seen : α) (visit : Header → Nat → α → m (ForInStep α)) :
    ExceptT Fault m (Ending × α) := do
  let length ← perform h.length
  walkFrom h start visit (maxOffset + 1) 0 length start seen

/-- The last block of the chain at `start`, with its offset. -/
def lastBlock (h : Handle) (start : Nat) : Action (Header × Nat) := do
  let (_, last) ← h.walk (m := StateM Store) start none fun header offset _ =>
    pure (if header.blockPart.isTail then .done (some (header, offset)) else .yield none)
  match last with
  | some found => return found
  | none => throw (.corruptChain (.noTail start))

end Handle
end RecordFile
