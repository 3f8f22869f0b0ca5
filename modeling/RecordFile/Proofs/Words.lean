import Mathlib
import RecordFile.Records.Reserve
import RecordFile.Proofs.Placement

/-! The operations of a handle, reckoned in words. A sum or a product that no word of 64 bits holds, a
difference below zero or a division by zero has no value here, and what has no value stops all that was to
come after it. -/
namespace RecordFile

/-! ### Words -/

namespace Word

variable {a b : Nat}

def add (a b : Nat) : Option Nat := if a + b < 2 ^ 64 then some (a + b) else none

def mul (a b : Nat) : Option Nat := if a * b < 2 ^ 64 then some (a * b) else none

def sub (a b : Nat) : Option Nat := if b ≤ a then some (a - b) else none

def div (a b : Nat) : Option Nat := if b = 0 then none else some (a / b)

def rem (a b : Nat) : Option Nat := if b = 0 then none else some (a % b)

/-- The quotient, and one more where something is left over. -/
def divUp (a b : Nat) : Option Nat := do
  let quotient ← div a b
  if 0 < (← rem a b) then add quotient 1 else return quotient

def roundUp (bytes chunk : Nat) : Option Nat := do mul (← divUp bytes chunk) chunk

theorem add_eq (fits : a + b < 2 ^ 64) : add a b = some (a + b) := if_pos fits

theorem mul_eq (fits : a * b < 2 ^ 64) : mul a b = some (a * b) := if_pos fits

theorem sub_eq (least : b ≤ a) : sub a b = some (a - b) := if_pos least

theorem div_eq (positive : 0 < b) : div a b = some (a / b) := if_neg (Nat.ne_of_gt positive)

theorem rem_eq (positive : 0 < b) : rem a b = some (a % b) := if_neg (Nat.ne_of_gt positive)

theorem ceil_eq (positive : 0 < b) : (a + b - 1) / b = a / b + if 0 < a % b then 1 else 0 := by
  have parts := Nat.div_add_mod a b
  have small := Nat.mod_lt a positive
  split
  case isTrue left =>
    rw [Nat.div_eq_iff positive, Nat.add_mul, Nat.mul_comm (a / b)]
    omega
  case isFalse even =>
    rw [Nat.div_eq_iff positive, Nat.add_zero, Nat.mul_comm (a / b)]
    omega

theorem divUp_eq (positive : 0 < b) (fits : (a + b - 1) / b < 2 ^ 64) : divUp a b = some ((a + b - 1) / b) := by
  rw [ceil_eq positive] at fits ⊢
  rw [divUp, div_eq positive, rem_eq positive]
  change (if 0 < a % b then add (a / b) 1 else some (a / b)) = _
  split
  case isTrue left =>
    rw [if_pos left] at fits
    exact add_eq fits
  case isFalse => rfl

theorem roundUp_eq {bytes chunk : Nat} (positive : 0 < chunk) (fits : RecordFile.roundUp bytes chunk < 2 ^ 64) :
    roundUp bytes chunk = some (RecordFile.roundUp bytes chunk) := by
  have least : (bytes + chunk - 1) / chunk ≤ RecordFile.roundUp bytes chunk := Nat.le_mul_of_pos_right _ positive
  rw [roundUp, divUp_eq positive (Nat.lt_of_le_of_lt least fits)]
  exact mul_eq fits

/-- The nearest that rounding comes to the end of what a word holds is at chunks a little below `2 ^ 32`, whose
multiples end there as `2 ^ 64` less a square. -/
theorem roundUp_fits {bytes chunk : Nat} (positive : 0 < chunk) (small : chunk < 2 ^ 32)
    (most : bytes ≤ 2 ^ 64 - 2 ^ 32 + 32) : RecordFile.roundUp bytes chunk < 2 ^ 64 := by
  have past : RecordFile.roundUp bytes chunk < bytes + chunk := roundUp_lt_add positive
  by_cases short : chunk ≤ 2 ^ 32 - 32
  · omega
  · obtain ⟨j, whole⟩ : ∃ j, chunk + j = 2 ^ 32 := ⟨2 ^ 32 - chunk, by omega⟩
    have square : (2 ^ 32 + j) * chunk + j * j = 2 ^ 64 := calc
      (2 ^ 32 + j) * chunk + j * j = 2 ^ 32 * chunk + j * (chunk + j) := by ring
      _ = 2 ^ 32 * chunk + j * 2 ^ 32 := by rw [whole]
      _ = 2 ^ 32 * (chunk + j) := by ring
      _ = 2 ^ 32 * 2 ^ 32 := by rw [whole]
      _ = 2 ^ 64 := by norm_num
    have rest : j * j ≤ 31 * 31 := Nat.mul_le_mul (by omega) (by omega)
    have reached : RecordFile.roundUp bytes chunk ≤ (2 ^ 32 + j) * chunk :=
      (isLeast_roundUp positive).2 ⟨Nat.dvd_mul_left _ _, by omega⟩
    have some : 0 < j * j := Nat.mul_pos (by omega) (by omega)
    omega

end Word

/-! ### What stops where a word cannot hold something -/

/-- An action that may be stopped at any point. -/
abbrev Checked (α : Type) := ExceptT Fault (OptionT (StateM Store)) α

namespace Checked

variable {α : Type}

/-- What is given, unless it is stopped, and the store then. -/
def exec (work : Checked α) (s : Store) : Option (Except Fault α) × Store := work.run.run.run s

/-- Nothing is stopped, and it comes to what the action comes to. -/
def Exact (work : Checked α) (act : Action α) (s : Store) : Prop :=
  work.exec s = (some (act.exec s).1, (act.exec s).2)

/-- What is reckoned apart from the store. -/
def given (result : ExceptT Fault Option α) : Checked α := ExceptT.mk (OptionT.mk (pure result.run))

def word (value : Option α) : Checked α := given (ExceptT.lift value)

/-! ### Offsets and sizes -/

def isAligned (h : Handle) (offset : Nat) : Checked Bool := do
  let chunkSize ← perform h.chunkSize
  return (← word (Word.rem offset chunkSize.toNat)) == 0

def requireAligned (h : Handle) (offset : Nat) : Checked Unit := do
  unless ← isAligned h offset do
    throw (.misplacedBlock offset (← perform h.chunkSize))

/-- The first byte past a block. -/
def stop (e : Extent) : Option Nat := Word.add e.offset.toNat e.size.toNat

def extent (offset size : UInt64) (chunkSize : UInt32) : ExceptT Fault Option Extent := do
  if chunkSize = 0 then throw (.settings .zeroChunk)
  let rest ← Word.rem offset.toNat chunkSize.toNat
  if rest ≠ 0 then throw (.misplacedBlock offset.toNat chunkSize)
  if size = 0 then throw (.parameter (.emptyBlock offset.toNat))
  return { offset, size }

def check (spec : BlockSpec) (chunkSize : UInt32) : ExceptT Fault Option Unit := do
  if spec.size = 0 then throw (.parameter (.unevenBlock spec.size chunkSize))
  let rest ← Word.rem spec.size.toNat chunkSize.toNat
  if rest ≠ 0 then throw (.parameter (.unevenBlock spec.size chunkSize))
  if spec.size.toNat < spec.kind.headerSize.toNat then throw (.parameter (.blockTooSmall spec.size spec.kind))
  if 0x80000000 ≤ spec.recordSize.toNat then throw (.parameter (.recordSize spec.recordSize))

/-! ### Blocks -/

/-- The last byte's offset is one that may be too large for a word, and is refused then. -/
def extend (h : Handle) (bytes : Nat) : Checked Nat := do
  if bytes = 0 then throw (.parameter .emptyExtension)
  let stop ← perform h.seekEnd
  requireAligned h stop
  let more ← word (Word.sub bytes 1)
  match Word.add stop more with
  | none => throw (.parameter (.extensionOverflow bytes stop))
  | some last =>
    perform (h.writeAt last [0])
    perform (h.seek stop)
    return stop

def append (h : Handle) (spec : BlockSpec) : Checked Extent := do
  let chunkSize ← perform h.chunkSize
  given (check spec chunkSize)
  h.keepingPosition (m := OptionT (StateM Store)) do
    let offset ← extend h spec.size.toNat
    perform (h.writeAt offset (spec.header chunkSize).encode)
    given (extent (UInt64.ofNat offset) spec.size.toUInt64 chunkSize)

def appendAfter (h : Handle) (tail : Nat) (spec : BlockSpec) : Checked Extent := do
  if let some existing := (← perform (h.readHeader tail)).next then
    throw (.alreadyLinked tail existing.start)
  let block ← append h spec
  perform (h.link tail block)
  return block

/-! ### Walks -/

def checkLink (h : Handle) (parent : Nat) (next : Extent) (length : Nat) : Checked Unit := do
  unless ← isAligned h next.start do
    throw (.corruptChain (.misalignedLink parent next.start))
  if length < (← word (stop next)) then
    throw (.corruptChain (.linkPastEnd parent next length))

def walkFrom (h : Handle) (start : Nat) (visit : Header → Nat → α → OptionT (StateM Store) (ForInStep α)) :
    Nat → Nat → Nat → Nat → α → Checked (Ending × α)
  | 0, _, _, _, _ => throw (.corruptChain (.endless start))
  | fuel + 1, steps, length, offset, seen => do
    let header ← perform (h.readHeader offset)
    match ← unfailing (visit header offset seen) with
    | .done seen => return (.stopped offset, seen)
    | .yield seen =>
      match header.next with
      | none => return (.tail offset, seen)
      | some next =>
        let stop ← word (stop next)
        let length ← if length < stop then perform h.length else pure length
        checkLink h offset next length
        let steps ← word (Word.add steps 1)
        let chunkSize ← perform h.chunkSize
        let most ← word (Word.div length chunkSize.toNat)
        if most < steps then
          throw (.corruptChain (.endless start))
        walkFrom h start visit fuel steps length next.start seen

def walk (h : Handle) (start : Nat) (seen : α) (visit : Header → Nat → α → OptionT (StateM Store) (ForInStep α)) :
    Checked (Ending × α) := do
  let length ← perform h.length
  walkFrom h start visit (maxOffset + 1) 0 length start seen

/-! ### Records -/

def slotSize (t : TableHeader) : ExceptT Fault Option Nat := do
  if t.recordSize = 0 then throw .variableLength
  Word.add t.recordSize.toNat presenceSize

/-- A size that no word holds is refused, as is one that is too large for a block. -/
def growthSize (records slotSize : Nat) (chunkSize : UInt32) : ExceptT Fault Option UInt32 := do
  match (Word.mul records slotSize).bind (Word.add · blockHeaderSize.toNat) with
  | none => throw (.recordOverflow records)
  | some bytes =>
    let size ← Word.roundUp bytes chunkSize.toNat
    if 0x100000000 ≤ size then throw (.recordOverflow records)
    return UInt32.ofNat size

/-- A count that has come past the target stops the search at once. -/
def step (slotSize target : Nat) (header : Header) (offset : Nat) : Search → Option (ForInStep Search)
  | .searching start => do
    guard (start ≤ target)
    let block := header.blockPart
    if block.firstRecord ≠ 0 ∧ block.firstRecord.toNat ≠ start then
      return .done (.misnumbered offset block.firstRecord.toNat start)
    let capacity ← Word.div block.payload slotSize
    let index ← Word.sub target start
    if index < capacity then
      let payload ← Word.add offset block.headerSize.toNat
      return .done (.found (← Word.add payload (← Word.mul index slotSize)))
    return .yield (.searching (← Word.add start capacity))
  | ended => return .done ended

def search (h : Handle) (cursor slotSize target start : Nat) : Checked Place := do
  let (ending, result) ← walk h cursor (Search.searching start)
    fun header offset result => OptionT.mk (pure (step slotSize target header offset result))
  match result with
  | .found offset => return .slot offset
  | .misnumbered offset stored expected =>
    throw (.corruptChain (.misnumbered offset stored expected))
  | .searching start => return .beyond ending.offset start

def locate (h : Handle) (chain : Nat) (table : TableHeader) (record : UInt32) : Checked Nat := do
  let slotSize ← given (slotSize table)
  if record = 0 then throw (.parameter .recordZero)
  match ← search h chain slotSize record.toNat 1 with
  | .slot offset => return offset
  | .beyond tail start =>
    let behind ← word (Word.sub record.toNat start)
    let records ← word (Word.add behind 1)
    let size ← given (growthSize records slotSize (← perform h.chunkSize))
    let block ← h.growing (m := OptionT (StateM Store))
      (appendAfter h tail (.data size (UInt64.ofNat start)))
    match ← search h block.start slotSize record.toNat start with
    | .slot offset => return offset
    | .beyond tail _ => throw (.corruptChain (.unresolved tail record.toNat))

def nextRecord (t : TableHeader) : ExceptT Fault Option UInt32 := do
  let next ← Word.add t.lastRecord.toNat 1
  if 0x80000000 ≤ next then throw (.recordOverflow next)
  return UInt32.ofNat next

def reserveWith (h : Handle) (head : Nat)
    (body : TableHeader → Slot → Checked (Outcome α × TableHeader)) : Checked α :=
  h.editing ⟨head, tableHeaderSize.toNat⟩ fun bytes => do
    let table ← perform (orFault (TableHeader.decode bytes.toList) .corruptHeader)
    let record ← given (nextRecord table)
    let offset ← locate h head table record
    let fresh ← perform (h.readTable head)
    let (outcome, edited) ← body fresh { record, offset }
    return (outcome, if outcome.isCommit then edited.encodeVector else bytes)

def reserve (h : Handle) (head : Nat) : Checked Slot :=
  reserveWith h head fun table slot => return (.commit slot, { table with lastRecord := slot.record })

def addTable (h : Handle) (recordSize : UInt32) : Checked Extent := do
  if recordSize = 0 then throw .variableLength
  let slotSize ← word (Word.add recordSize.toNat presenceSize)
  let room ← word (Word.add tableHeaderSize.toNat slotSize)
  let size ← word (Word.roundUp room (← perform h.chunkSize).toNat)
  if 0x100000000 ≤ size then throw (.parameter (.recordTooLarge recordSize))
  h.growing (m := OptionT (StateM Store)) (append h (.table (UInt32.ofNat size) recordSize))

end Checked
end RecordFile
