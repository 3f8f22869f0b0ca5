/-!
Where a block lies in its file.
-/

namespace RecordFile

/-- The bytes a block occupies: where it starts and how long it is. -/
structure Extent where
  offset : UInt64
  size : UInt64
  deriving DecidableEq, Inhabited

namespace Extent

def start (e : Extent) : Nat := e.offset.toNat

/-- The first byte past the block. -/
def stop (e : Extent) : Nat := e.offset.toNat + e.size.toNat

/-- The start in hexadecimal, then the size in decimal. -/
def render (e : Extent) : String :=
  "0x" ++ String.ofList (Nat.toDigits 16 e.offset.toNat) ++ "+" ++ toString e.size.toNat

end Extent
end RecordFile
