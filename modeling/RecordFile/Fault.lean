import RecordFile.Extent
import RecordFile.Header.Defect
import RecordFile.Region

/-!
Everything that can go wrong with a record file. A fault is a cause; what is said of it is in
`RecordFile.Fault.Message`.
-/

namespace RecordFile

/-- A failure of the file system. -/
inductive SystemError
  | errno (number : Int)
  /-- The file ended before all the bytes asked for were read. -/
  | shortRead
  | lockOffsetRange
  | lockLengthRange
  /-- A path with a NUL in it, which ends the paths that the system takes. -/
  | nulInPath
  /-- A failure without a number, in the words of whoever reported it. -/
  | other (text : String)
  deriving DecidableEq

namespace SystemError

def notFound : SystemError := .errno 2
def badDescriptor : SystemError := .errno 9
def notDirectory : SystemError := .errno 20
def isDirectory : SystemError := .errno 21
def invalidArgument : SystemError := .errno 22
def nameTooLong : SystemError := .errno 36
def overflow : SystemError := .errno 75

def number? : SystemError → Option Int
  | errno n => some n
  | shortRead | lockOffsetRange | lockLengthRange | nulInPath | other _ => none

end SystemError

/-- Why a file is not opened. -/
inductive FileDefect
  | tooShort
  | badMagic (found : List UInt8)
  | header (defect : HeaderDefect)
  | zeroChunk
  | zeroSize
  | unevenBlock (blockSize chunkSize : UInt32)
  /-- A cause in a caller's own words. -/
  | other (text : String)
  deriving DecidableEq

/-- Why a chain of blocks cannot be followed. -/
inductive ChainDefect
  | misalignedLink (parent target : Nat)
  | linkPastEnd (parent : Nat) (target : Extent) (length : Nat)
  /-- More links than the file has chunks: some block comes twice. -/
  | endless (start : Nat)
  | noTail (start : Nat)
  | misnumbered (offset stored expected : Nat)
  | unresolved (offset record : Nat)
  /-- A cause in a caller's own words. -/
  | other (text : String)
  deriving DecidableEq

/-- Why settings are refused. -/
inductive SettingsDefect
  | zeroChunk
  | recordSize (size : UInt32)
  | chunkTooSmall (chunkSize recordSize : UInt32)
  /-- A cause in a caller's own words. -/
  | other (text : String)
  deriving DecidableEq

/-- Why an argument is refused. -/
inductive ParameterDefect
  | emptyBlock (offset : Nat)
  | emptyExtension
  | extensionOverflow (bytes offset : Nat)
  | unevenBlock (blockSize chunkSize : UInt32)
  | blockTooSmall (blockSize : UInt32) (kind : BlockKind)
  | recordSize (size : UInt32)
  | recordTooLarge (size : UInt32)
  | recordZero
  | emptyRegion
  /-- A cause in a caller's own words. -/
  | other (text : String)
  deriving DecidableEq

inductive Fault
  | system (error : SystemError)
  | incompleteRead (offset expected actual : Nat)
  | incompleteWrite (offset expected actual : Nat)
  /-- Another handle holds a lock that shares a byte with the region. -/
  | lockFailed (region : Region)
  /-- This handle holds a region that shares a byte with this one. -/
  | regionAlreadyHeld (region : Region)
  | lockReadFailed (region : Region)
  | lockWriteFailed (region : Region)
  /-- The block already links to another, which a new link would orphan. -/
  | alreadyLinked (parent existing : Nat)
  | misplacedBlock (offset : Nat) (chunkSize : UInt32)
  | invalidFile (defect : FileDefect)
  | corruptHeader (defect : HeaderDefect)
  | corruptChain (defect : ChainDefect)
  | settings (defect : SettingsDefect)
  | parameter (defect : ParameterDefect)
  | variableLength
  | recordOverflow (record : Nat)
  deriving DecidableEq

namespace Fault

/-- Whether waiting may help: only contention passes by itself. -/
def isRetryable : Fault → Bool
  | lockFailed _ => true
  | _ => false

/-- The number of the system error behind a fault. -/
def errno? : Fault → Option Int
  | system error => error.number?
  | _ => none

end Fault
end RecordFile
