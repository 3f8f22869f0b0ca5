import RecordFile.Stream

/-!
Locks taken and given back by hand. A guard knows the descriptor it was taken through and nothing
about the file behind it, so it must not outlive its handle.
-/

namespace RecordFile

/-- The bytes that locking a region takes. An empty region stands for everything from its offset on. -/
def Region.lockSpan (r : Region) : Except SystemError Region :=
  if maxOffset < r.offset then .error .lockOffsetRange
  else if maxOffset < r.len then .error .lockLengthRange
  else if r.len = 0 then .ok ⟨r.offset, maxOffset + 1 - r.offset⟩
  else if maxOffset < r.offset + r.len - 1 then .error .overflow
  else .ok r

namespace Handle

/-- Locks a region for the handle, or fails at once if another handle is in the way. -/
def lockBytes (h : Handle) (r : Region) : Action Unit := do
  let span ← orFault r.lockSpan .system
  let file ← h.file
  if (← get).locks.contended h.descriptor file.location span then
    throw (.lockFailed r)
  modify fun s => { s with locks := s.locks.add h.descriptor file.location span }

def unlockBytes (h : Handle) (r : Region) : Action Unit := do
  let span ← orFault r.lockSpan .system
  let _ ← h.file
  modify fun s => { s with locks := s.locks.remove h.descriptor span }

end Handle

/-- A lock held until it is released or dropped. -/
structure Guard where
  handle : Handle
  region : Region
  deriving DecidableEq

namespace Guard

/-- Tries once to lock the region. The handle does not count it among the regions it holds. -/
def acquire (h : Handle) (region : Region) : Action Guard := do
  h.lockBytes region
  return { handle := h, region }

def release (g : Guard) : Action Unit := g.handle.unlockBytes g.region

/-- Releases the lock and says nothing if that fails. -/
def drop (g : Guard) : StateM Store Unit := discard g.release.run

end Guard
end RecordFile
