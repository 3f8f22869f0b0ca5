import RecordFile.BlockKind

/-!
Why bytes are not a header, and how that is said.
-/

namespace RecordFile

inductive HeaderDefect
  /-- Too few bytes to hold a kind and a header size. -/
  | unannounced (available : Nat)
  | tooShort (needed : UInt16) (available : Nat)
  | unknownKind (tag : UInt16)
  | impossibleSize (kind : BlockKind) (size : UInt16)
  | negativeLink (offset size : Int)
  | noTablePart (kind : BlockKind)
  | negativeRecordSize (value : Int)
  | negativeLastRecord (value : Int)
  | badMagic (found : List UInt8)
  /-- The header is sound, but its block heads no table. -/
  | notTableHead (offset : Nat)
  /-- A cause in a caller's own words. -/
  | other (text : String)
  deriving DecidableEq

/-- The bytes of a file's mark: the letters R, N, D, B. -/
def magic : List UInt8 := [0x52, 0x4e, 0x44, 0x42]

/-- What is said of a mark that is not `magic`. -/
def badMagicMessage (found : List UInt8) : String :=
  "bad magic: expected RNDB, got ["
    ++ ", ".intercalate (found.map fun b => toString b.toNat) ++ "]"

/-- Bytes needed to learn a header's kind and size. -/
def announcementSize : Nat := 4

def HeaderDefect.message : HeaderDefect → String
  | unannounced available => s!"header prefix needs {announcementSize} bytes, got {available}"
  | tooShort needed available => s!"header needs {needed.toNat} bytes, got {available}"
  | unknownKind tag => s!"unknown block type {tag.toNat}"
  | impossibleSize kind size => s!"{kind.name} block cannot have a {size.toNat}-byte header"
  | negativeLink offset size => s!"negative block link ({offset}, {size})"
  | noTablePart kind => s!"{kind.name} block does not carry a table header"
  | negativeRecordSize value => s!"negative record_size: {value}"
  | negativeLastRecord value => s!"negative last_recno: {value}"
  | badMagic found => badMagicMessage found
  | notTableHead offset => s!"block at {offset} is not a table head"
  | other text => text

/-- What is said of a header that cannot be read. -/
def HeaderDefect.sentence (defect : HeaderDefect) : String :=
  s!"Corrupt block header: {defect.message}"

/-- Refuses bytes too few for a header part of `needed` bytes. -/
def needBytes (needed : UInt16) (bytes : List UInt8) : Except HeaderDefect Unit :=
  if bytes.length < needed.toNat then .error (.tooShort needed bytes.length) else .ok ()

/-- The kind a stored tag stands for. -/
def decodeKind (tag : UInt16) : Except HeaderDefect BlockKind :=
  match BlockKind.ofCode? tag with
  | some kind => .ok kind
  | none => .error (.unknownKind tag)

end RecordFile
