import RecordFile.CommandLine.Command
import RecordFile.Fault.Message
import RecordFile.Records.Reserve

/-!
What each command does and prints. A command that fails keeps the lines it printed before.
-/

namespace RecordFile.CommandLine

/-- Work that prints lines. -/
abbrev Printing := StateT String (StateM Store)

def print (line : String) : ExceptT Fault Printing Unit :=
  unfailing (modify fun output => output ++ line ++ "\n")

def padLeft (width : Nat) (text : String) : String :=
  String.ofList (List.replicate (width - text.length) ' ') ++ text

def padRight (width : Nat) (text : String) : String :=
  text ++ String.ofList (List.replicate (width - text.length) ' ')

def blockLine (offset : Nat) (block : BlockHeader) : String :=
  padLeft 10 (toString offset) ++ "  " ++ padRight 8 block.kind.name
    ++ " size=" ++ padRight 8 (toString block.blockSize.toNat)
    ++ " first_recno=" ++ toString block.firstRecord.toNat

def printInfo (h : Handle) : ExceptT Fault Printing Unit := do
  let file ← perform h.file
  let table := file.header.table
  print ("path:        " ++ file.path)
  print ("chunk size:  " ++ toString file.header.chunkSize.toNat)
  print ("record size: " ++ toString table.recordSize.toNat)
  print ("last recno:  " ++ toString table.lastRecord.toNat)
  print ("file length: " ++ toString (← perform h.length))
  print ("next block:  " ++ (table.block.next.map Extent.render).getD "none")

def printChain (h : Handle) (start : Nat) : ExceptT Fault Printing Unit := do
  let (ending, _) ← h.walk start () fun header offset _ => do
    modify fun output => output ++ blockLine offset header.blockPart ++ "\n"
    return .yield ()
  print ("tail at " ++ toString ending.offset)

/-- Reserves so many records one after another, printing each. The first failure ends it. -/
def reserveMany (h : Handle) (table : Nat) : Nat → ExceptT Fault Printing Unit
  | 0 => pure ()
  | count + 1 => do
    let slot ← perform (h.reserve table)
    print (toString slot.record.toNat ++ "\t" ++ toString slot.offset)
    reserveMany h table count

def Command.run (file : String) : Command → ExceptT Fault Printing Unit
  | .create chunkSize recordSize => do
    let h ← perform (Handle.create file { chunkSize, recordSize })
    perform h.close
  | .info => Handle.within .existing file {} printInfo
  | .walk start => Handle.within .existing file {} fun h => printChain h start.toNat
  | .addTable recordSize => Handle.within .existing file {} fun h => do
    let table ← perform (h.addTable recordSize)
    print (toString table.start)
  | .reserve table count => Handle.within .existing file {} fun h =>
    reserveMany h table.toNat count.toNat

/-- How a run ended: the exit code, what it printed, and what there is to complain about. -/
structure Report where
  code : UInt32 := 0
  output : String := ""
  complaint : Option String := none

def usage : String :=
"Inspect and grow recnodb data files

Usage: recnodb [OPTIONS] <COMMAND>

Commands:
  create     Create a new data file, replacing any existing one
  info       Print the file header
  walk       List the blocks of a chain
  add-table  Create a new table and print its offset
  reserve    Reserve record numbers in a table
  help       Print this message or the help of the given subcommand(s)

Options:
  -f, --file <FILE>  Data file [default: ./data.rndb]
  -h, --help         Print help
  -V, --version      Print version
"

def version : String := "0.1.0"

/-- Runs the program on its arguments. -/
def run (arguments : List String) : StateM Store Report := do
  match parse arguments with
  | .error error => return { code := 2, complaint := some error.message }
  | .ok .help => return { output := usage }
  | .ok .version => return { output := "recnodb " ++ version ++ "\n" }
  | .ok (.run file command) =>
    let (result, output) ← ((command.run file).run).run ""
    match result with
    | .ok () => return { output }
    | .error fault => return { code := 1, output, complaint := some fault.message }

end RecordFile.CommandLine
