import RecordFile.Header.Basic
import RecordFile.Stream

/-!
The life of a handle: creating or opening a file, rereading its header, closing.
-/

namespace RecordFile

/-- Reads the header at the start of a file that is to be used, and checks that it can be. -/
def FileHeader.verify (bytes : List UInt8) : Except FileDefect FileHeader := do
  if bytes.length < fileHeaderSize.toNat then throw .tooShort
  unless markOf bytes = magic do throw (.badMagic (markOf bytes))
  let header ← (decode bytes).mapError .header
  let block := header.table.block
  if header.chunkSize = 0 then throw .zeroChunk
  if block.headerSize = 0 ∨ block.blockSize = 0 then throw .zeroSize
  unless block.blockSize % header.chunkSize = 0 do
    throw (.unevenBlock block.blockSize header.chunkSize)
  return header

def FileHeader.ofContent (content : Content) : Except Fault FileHeader :=
  (verify (content.read 0 fileHeaderSize.toNat)).mapError .invalidFile

/-- Whether a file is made anew or must exist. -/
inductive Mode
  | create
  | existing
  deriving DecidableEq

namespace Handle

/-- Opens a file of the store under the lowest free descriptor. -/
def attach (file : OpenFile) : Action Handle := do
  let s ← get
  set (s.attach file)
  return ⟨s.freeDescriptor⟩

/-- Makes a file of one chunk that holds the first block of a table, in place of any file at the path. -/
def create (path : String) (settings : Settings) : Action Handle := do
  settings.check
  let location ← orFault ((← get).locationFor path) .system
  let header := FileHeader.fresh settings.chunkSize settings.recordSize
  let chunk := Content.empty.resize settings.chunkSize.toNat
  modify fun s => s.put location (chunk.write 0 header.encode)
  attach { path, location, header, settings }

/-- Opens a file whose header passes the checks. -/
def openExisting (path : String) (settings : Settings) : Action Handle := do
  let s ← get
  let location ← orFault (s.find path) .system
  let header ← FileHeader.ofContent ((s.content? location).getD Content.empty)
  attach { path, location, header, settings }

def openIn : Mode → String → Settings → Action Handle
  | .create => create
  | .existing => openExisting

/-- Ends the handle and all locks it owns. -/
def close (h : Handle) : Action Unit := do
  let _ ← h.file
  modify fun s => s.detach h.descriptor

/-- Reads the header at the start of the file and checks that the file can be used. The stream is left at the
start, or at the end of a file too short. -/
def readFileHeader (h : Handle) : Action FileHeader := do
  let bytes ← h.readAt 0 fileHeaderSize.toNat
  if bytes.length = fileHeaderSize.toNat then h.seek 0
  orFault (FileHeader.verify bytes) .invalidFile

/-- Reads the file header again. The handle keeps the one it had if the new one is refused. The stream is put
back where it was. -/
def refresh (h : Handle) : Action FileHeader := do
  let header ← h.keepingPosition h.readFileHeader
  h.update fun file => { file with header }
  return header

/-- The chunk size of the file, as the handle knows it. -/
def chunkSize (h : Handle) : Action UInt32 := do
  return (← h.file).header.chunkSize

variable {m : Type → Type} [Monad m] [MonadLiftT (StateM Store) m] {α : Type}

/-- Opens a file for the time that `user` runs. A fault of `user` wins over one of closing. -/
def within (mode : Mode) (path : String) (settings : Settings)
    (user : Handle → ExceptT Fault m α) : ExceptT Fault m α := do
  let h ← perform (openIn mode path settings)
  ensuring (user h) (perform h.close)

end Handle
end RecordFile
