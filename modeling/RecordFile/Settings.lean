import RecordFile.Backoff

/-!
What the user of a file chooses: the layout of a new file, and how to wait for locks.
-/

namespace RecordFile

structure Settings where
  /-- Chunk size of a new file. An existing file keeps its own. -/
  chunkSize : UInt32 := 4096
  /-- Record size of the table at the start of a new file. -/
  recordSize : UInt32 := 50
  /-- How the growth of a file waits for its lock. -/
  backoff : Backoff := {}
  deriving DecidableEq, Inhabited

/-- Bytes in front of each record that tell whether it is present. -/
def presenceSize : Nat := 1

/-- Refuses settings with which no file can be created: its head must have room for one record. -/
def Settings.check (s : Settings) : Except Fault Unit :=
  if s.recordSize = 0 then
    .error .variableLength
  else if 0x80000000 ≤ s.recordSize.toNat then
    .error (.settings (.recordSize s.recordSize))
  else if s.chunkSize.toNat < fileHeaderSize.toNat + s.recordSize.toNat + presenceSize then
    .error (.settings (.chunkTooSmall s.chunkSize s.recordSize))
  else
    .ok ()

end RecordFile
