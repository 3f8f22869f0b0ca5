import RecordFile.CommandLine.Run

/-!
The program: it loads the file that its arguments name, runs on it, and writes back what changed.
-/

namespace RecordFile.CommandLine

/-- The bytes of the file at a path, if it can be read. -/
def loadContent (path : String) : IO (Option Content) := do
  try return some ⟨← IO.FS.readBinFile path⟩
  catch _ => return none

/-- A store with the one file at `path`. The directories on the way to it are taken to exist. -/
def storeOf (path : String) (content : Option Content) : Store :=
  { files := content.toList.map fun c => (Location.ofPath path, c)
    directories := (Location.along path).dropLast }

end RecordFile.CommandLine

open RecordFile RecordFile.CommandLine

def main (arguments : List String) : IO UInt32 := do
  let path := match parse arguments with
    | .ok (.run file _) => file
    | _ => defaultFile
  let before ← loadContent path
  let (report, store) := (run arguments).run (storeOf path before)
  try
    if let some after := store.content? (Location.ofPath path) then
      unless before.map (·.bytes) == some after.bytes do
        IO.FS.writeBinFile path after.bytes
    IO.print report.output
    if let some complaint := report.complaint then
      IO.eprintln complaint
    return report.code
  catch error =>
    IO.eprintln s!"System error: {error}"
    return 1
