import RecordFile.Guard

/-!
Work done under a lock. The lock lasts as long as the body; with the region's bytes in hand, the body
also says whether its version of them is to be written.
-/

namespace RecordFile

/-- What becomes of the bytes lent to a body. -/
inductive Outcome (α : Type)
  /-- They stay as they are in the file. -/
  | keep (value : α)
  /-- The body's version is written. -/
  | commit (value : α)

namespace Outcome

def value {α : Type} : Outcome α → α
  | keep v | commit v => v

def isCommit {α : Type} : Outcome α → Bool
  | keep _ => false
  | commit _ => true

end Outcome

namespace Handle

/-- Locks a region that shares no byte with those the handle holds. Locks of one handle merge, so
unlocking the inner of two such regions would unlock a part of the outer one. -/
def hold (h : Handle) (r : Region) : Action Unit := do
  if r.len = 0 then throw (.parameter .emptyRegion)
  if (← h.file).held.any fun region => region.Overlaps r then
    throw (.regionAlreadyHeld r)
  h.recording (h.lockBytes r)
  h.update fun file => { file with held := r :: file.held }

def letGo (h : Handle) (r : Region) : Action Unit := do
  h.update fun file => { file with held := file.held.erase r }
  h.recording (h.unlockBytes r)

/-- Writes the bytes of a locked region. -/
def writeBack (h : Handle) (r : Region) (bytes : List UInt8) : Action Unit :=
  tryCatch (h.writeAt r.offset bytes) fun _ => throw (.lockWriteFailed r)

variable {m : Type → Type} [Monad m] [MonadLiftT (StateM Store) m] {α : Type}

/-- Runs `body` while the region is locked. -/
def locked (h : Handle) (r : Region) (body : ExceptT Fault m α) : ExceptT Fault m α := do
  perform (h.hold r)
  ensuring body (perform (h.letGo r))

/-- Runs `body` on the bytes of a region while it is locked. The bytes that a body returns are
written if it commits. The stream is put back where it was. -/
def editing (h : Handle) (r : Region)
    (body : Vector UInt8 r.len → ExceptT Fault m (Outcome α × Vector UInt8 r.len)) :
    ExceptT Fault m α :=
  h.locked r <| h.keepingPosition do
    let bytes ← perform (h.readAt r.offset r.len)
    if enough : bytes.length = r.len then
      let (outcome, edited) ← body ⟨bytes.toArray, enough⟩
      if outcome.isCommit then
        perform (h.writeBack r edited.toList)
      return outcome.value
    else
      throw (.lockReadFailed r)

/-- What runs under a lock. It may be lent the bytes of the region. If it commits, the ones that it returns are
written in place of them. -/
abbrev Body (m : Type → Type) (α : Type) (r : Region) :=
  Option (Vector UInt8 r.len) → ExceptT Fault m (Outcome α × Option (Vector UInt8 r.len))

/-- The body when it is lent these bytes, which stay as they are if it returns no others. -/
def Body.on {r : Region} (body : Body m α r) (bytes : Vector UInt8 r.len) :
    ExceptT Fault m (Outcome α × Vector UInt8 r.len) := do
  let (outcome, edited) ← body (some bytes)
  return (outcome, edited.getD bytes)

/-- Runs the body while the region is locked, on the bytes of the region if these are to be retrieved. -/
def underLock (h : Handle) (r : Region) (retrieve : Bool) (body : Body m α r) : ExceptT Fault m α :=
  if retrieve then
    h.editing r body.on
  else
    h.locked r do
      let (outcome, _) ← body none
      return outcome.value

/-- Tries `op` again while it fails for contention, as the handle's settings say. How to wait is left
to `wait`. -/
def retrying (h : Handle) (wait : Nat → m Unit) (op : ExceptT Fault m α) : ExceptT Fault m α := do
  let file ← perform h.file
  file.settings.backoff.run wait op

end Handle
end RecordFile
