import RecordFile.Action

/-!
Reading and writing through a handle. Each handle has a position in its file, which moves as bytes
are read and written. A system error is kept by the handle as its last.
-/

namespace RecordFile

/-- The last offset in any file: offsets are signed words of 64 bits. -/
def maxOffset : Nat := 9223372036854775807

/-- An open file, known by its descriptor. The descriptor may be given to another file once this one
is closed. -/
structure Handle where
  descriptor : Nat
  deriving DecidableEq, Inhabited

namespace Handle

/-- The open file behind the handle. -/
def file (h : Handle) : Action OpenFile := do
  match (← get).openFile? h.descriptor with
  | some file => return file
  | none => throw (.system .badDescriptor)

def update (h : Handle) (change : OpenFile → OpenFile) : Action Unit := do
  let _ ← h.file
  modify fun s => s.mapOpen h.descriptor change

/-- Fails by a system error and remembers it. -/
def fail {α : Type} (h : Handle) (error : SystemError) : Action α := do
  h.update fun file => { file with lastErrno := error.number? }
  throw (.system error)

/-- Remembers the system error by which an action fails, if it does. -/
def recording {α : Type} (h : Handle) (act : Action α) : Action α :=
  tryCatch act fun
    | .system error => h.fail error
    | fault => throw fault

def content (h : Handle) : Action Content := do
  let file ← h.file
  return ((← get).content? file.location).getD Content.empty

def setContent (h : Handle) (content : Content) : Action Unit := do
  let file ← h.file
  modify fun s => s.put file.location content

def length (h : Handle) : Action Nat := do
  return (← h.content).size

def position (h : Handle) : Action Nat := do
  return (← h.file).position

/-- Moves the stream. An offset that no file has leaves it where it is. -/
def seek (h : Handle) (offset : Nat) : Action Unit :=
  if maxOffset < offset then
    h.fail .invalidArgument
  else
    h.update fun file => { file with position := offset }

/-- Moves the stream to the end of the file, and returns where that is. -/
def seekEnd (h : Handle) : Action Nat := do
  let length ← h.length
  h.seek length
  return length

/-- Moves the stream to `offset` for `count` bytes from there on. Where the last of them ends must
still be an offset. -/
def seekFor (h : Handle) (offset count : Nat) : Action Unit := do
  h.seek offset
  if maxOffset < offset + count then h.fail .invalidArgument

/-- The bytes from `offset` on, at most `count` of them, as far as the file reaches. The stream is
left after the last one. -/
def readAt (h : Handle) (offset count : Nat) : Action (List UInt8) := do
  h.seekFor offset count
  let bytes := (← h.content).read offset count
  h.update fun file => { file with position := offset + bytes.length }
  return bytes

/-- Exactly `count` bytes from `offset` on. -/
def readExactly (h : Handle) (offset count : Nat) : Action (List UInt8) := do
  let bytes ← h.readAt offset count
  if bytes.length < count then h.fail .shortRead else return bytes

/-- Writes bytes from `offset` on, past the end of the file too. The stream is left after the last
one. -/
def writeAt (h : Handle) (offset : Nat) (bytes : List UInt8) : Action Unit := do
  h.seekFor offset bytes.length
  h.setContent ((← h.content).write offset bytes)
  h.update fun file => { file with position := offset + bytes.length }

variable {m : Type → Type} [Monad m] [MonadLiftT (StateM Store) m] {α : Type}

/-- Runs `op` and puts the stream back where it was. -/
def keepingPosition (h : Handle) (op : ExceptT Fault m α) : ExceptT Fault m α := do
  let saved ← perform h.position
  ensuring op (perform (h.seek saved))

end Handle
end RecordFile
