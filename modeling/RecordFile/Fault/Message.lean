import RecordFile.Fault
import RecordFile.Fault.ErrorNumber

/-!
The words for each fault: a message that tells what happened, and a fixed description of its kind.
-/

namespace RecordFile

namespace SystemError

def message : SystemError → String
  | errno n => s!"{ErrorNumber.text n} (os error {n})"
  | shortRead => "failed to fill whole buffer"
  | lockOffsetRange => "lock offset out of range"
  | lockLengthRange => "lock length out of range"
  | nulInPath => "file name contained an unexpected NUL byte"
  | other text => text

end SystemError

/-- The largest record size and record number: both are stored as signed words of 32 bits. -/
def maxStored : Nat := 2147483647

def recordSizeMessage (size : UInt32) : String :=
  s!"record size {size.toNat} exceeds {maxStored}"

def FileDefect.message : FileDefect → String
  | tooShort => "file is shorter than a file header"
  | badMagic found => badMagicMessage found
  | header defect => defect.sentence
  | zeroChunk => "chunk size is zero"
  | zeroSize => "file head has a zero header or block size"
  | unevenBlock blockSize chunkSize =>
    s!"file head block size {blockSize.toNat} is not a multiple of chunk size {chunkSize.toNat}"
  | other text => text

def ChainDefect.message : ChainDefect → String
  | misalignedLink parent target => s!"block at {parent} links to misaligned offset {target}"
  | linkPastEnd parent target length =>
    s!"block at {parent} links to {target.render} past end of file ({length})"
  | endless start => s!"chain from {start} has more links than the file has chunks"
  | noTail start => s!"chain from {start} has no tail"
  | misnumbered offset stored expected =>
    s!"block at {offset} starts at record {stored}, expected {expected}"
  | unresolved offset record => s!"walk stopped at {offset} without resolving record {record}"
  | other text => text

def SettingsDefect.message : SettingsDefect → String
  | zeroChunk => "chunk size must be non-zero"
  | recordSize size => recordSizeMessage size
  | chunkTooSmall chunkSize size =>
    s!"chunk size {chunkSize.toNat} cannot hold a file header and one {size.toNat}-byte record"
  | other text => text

def ParameterDefect.message : ParameterDefect → String
  | emptyBlock offset => s!"block at {offset} has zero size"
  | emptyExtension => "cannot extend the file by zero bytes"
  | extensionOverflow bytes offset => s!"extending {bytes} bytes past offset {offset} overflows"
  | unevenBlock blockSize chunkSize =>
    s!"block size {blockSize.toNat} is not a non-zero multiple of chunk size {chunkSize.toNat}"
  | blockTooSmall blockSize kind => s!"block size {blockSize.toNat} cannot hold a {kind.name} header"
  | recordSize size => recordSizeMessage size
  | recordTooLarge size => s!"record size {size.toNat} is too large"
  | recordZero => "record numbers start at 1"
  | emptyRegion => "cannot lock an empty region"
  | other text => text

/-- A region as messages show it. -/
def Region.render (r : Region) : String := s!"[{r.offset}, +{r.len})"

namespace Fault

def message : Fault → String
  | system error => s!"System error: {error.message}"
  | incompleteRead offset expected actual =>
    s!"Incomplete read at offset {offset}: expected {expected} bytes, got {actual}"
  | incompleteWrite offset expected actual =>
    s!"Incomplete write at offset {offset}: expected {expected} bytes, wrote {actual}"
  | lockFailed region => s!"Region {region.render} is locked by another handle"
  | regionAlreadyHeld region => s!"Region {region.render} overlaps a region this handle already holds"
  | lockReadFailed region => s!"Failed to read locked region {region.render}"
  | lockWriteFailed region => s!"Failed to write back locked region {region.render}"
  | alreadyLinked parent existing =>
    s!"Block at {parent} already links to {existing}; refusing to orphan it"
  | misplacedBlock offset chunkSize =>
    s!"Block location {offset} is not a multiple of chunk size {chunkSize.toNat}"
  | invalidFile defect => s!"Invalid file header: {defect.message}"
  | corruptHeader defect => defect.sentence
  | corruptChain defect => s!"Corrupt chain: {defect.message}"
  | settings defect => s!"Configuration error: {defect.message}"
  | parameter defect => s!"Invalid parameter: {defect.message}"
  | variableLength => "Variable-length records are not supported"
  | recordOverflow record => s!"Record number {record} is out of range"

/-- What the fault's kind means, whatever its details. -/
def description : Fault → String
  | system _ => "system error, check the OS error number"
  | incompleteRead .. => "incomplete read"
  | incompleteWrite .. => "incomplete write"
  | lockFailed _ => "failed to acquire lock on region"
  | regionAlreadyHeld _ => "region overlaps a lock held by the same handle"
  | lockReadFailed _ => "failed to read locked region"
  | lockWriteFailed _ => "failed to write back locked region"
  | alreadyLinked .. => "attempt to overwrite an existing block link"
  | misplacedBlock .. => "block location is not chunk-aligned"
  | invalidFile _ => "file header missing or invalid"
  | corruptHeader _ => "block header is corrupt"
  | corruptChain _ => "block chain is corrupt"
  | settings _ => "invalid configuration"
  | parameter _ => "invalid parameter"
  | variableLength => "variable-length records are not supported"
  | recordOverflow _ => "record number out of range"

end Fault
end RecordFile
