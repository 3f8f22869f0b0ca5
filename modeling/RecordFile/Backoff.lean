import RecordFile.Fault

/-!
Trying again while a region is contended. Delays double from one retry to the next until a cap.
-/

namespace RecordFile

/-- How often to try and how long to wait in between. Delays are in nanoseconds. -/
structure Backoff where
  /-- Tries in all, the first included; none counts as one. -/
  attempts : UInt32 := 5
  /-- The wait before the first retry. -/
  base : Nat := 2000000
  /-- The longest wait. -/
  cap : Nat := 50000000
  deriving DecidableEq, Inhabited

namespace Backoff

/-- One try and no waiting. -/
def single : Backoff where
  attempts := 1
  base := 0
  cap := 0

/-- Past this many doublings the delay stays the same. -/
def maxDoublings : Nat := 16

/-- The wait after the failed try number `retry`, counted from 1. -/
def delay (b : Backoff) (retry : Nat) : Nat :=
  min (b.base <<< min (retry - 1) maxDoublings) b.cap

variable {m : Type → Type} [Monad m] {α : Type}

/-- Tries `op`, and up to `left` times more while it fails for contention. -/
def retryFrom (b : Backoff) (wait : Nat → m Unit) (op : ExceptT Fault m α) :
    Nat → Nat → ExceptT Fault m α
  | 0, _ => op
  | left + 1, retry => ExceptT.mk do
    match ← op.run with
    | .error fault =>
      if fault.isRetryable then
        wait (b.delay retry)
        (b.retryFrom wait op left (retry + 1)).run
      else
        return .error fault
    | .ok value => return .ok value

/-- Runs `op` until it succeeds, fails for another reason than contention, or the tries are used up. -/
def run (b : Backoff) (wait : Nat → m Unit) (op : ExceptT Fault m α) : ExceptT Fault m α :=
  b.retryFrom wait op (b.attempts.toNat - 1) 1

end Backoff
end RecordFile
