import RecordFile.CommandLine.Arguments

/-!
The commands, and which arguments ask for which.
-/

namespace RecordFile.CommandLine

inductive Command
  | create (chunkSize recordSize : UInt32)
  | info
  | walk (start : UInt64)
  | addTable (recordSize : UInt32)
  | reserve (table : UInt64) (count : UInt32)
  deriving DecidableEq

inductive Request
  | help
  | version
  | run (file : String) (command : Command)
  deriving DecidableEq

/-- The values found among the arguments of a command. -/
structure Found where
  options : List (Char × UInt32) := []
  plain : List String := []

def Found.option (found : Found) (letter : Char) (default : UInt32) : UInt32 :=
  (found.options.lookup letter).getD default

/-- Reads the items of a command. Options are numbers; a plain argument must pass `accepts`, and
there are at most `most` of them. Nothing is found if help is asked for. -/
def collect (most : Nat) (accepts : String → Bool) :
    List Item → Found → Except UsageError (Option Found)
  | [], found => .ok (some found)
  | item :: rest, found =>
    match item with
    | .help | .version => .ok none
    | .bad error => .error error
    | .command name _ => .error (.unexpected name)
    | .option letter value =>
      if (found.options.lookup letter).isSome then .error (.repeated letter)
      else
        match word32? value with
        | some n => collect most accepts rest { found with options := (letter, n) :: found.options }
        | none => .error (.invalidValue value)
    | .plain text =>
      if most ≤ found.plain.length then .error (.unexpected text)
      else if accepts text then
        collect most accepts rest { found with plain := found.plain ++ [text] }
      else .error (.invalidValue text)

/-- A command's arguments: its options, how many plain arguments it takes, and what they may be. -/
structure Shape where
  options : List (Char × String) := []
  most : Nat := 0
  accepts : String → Bool := fun _ => false

def Shape.read (shape : Shape) (arguments : List String) : Except UsageError (Option Found) :=
  collect shape.most shape.accepts (Grammar.items { options := shape.options } arguments) {}

def createShape : Shape where
  options := [('c', "chunk-size"), ('r', "record-size")]

def walkShape : Shape where
  most := 1
  accepts := fun text => (word64? text).isSome

def addTableShape : Shape where
  most := 1
  accepts := fun text => (word32? text).isSome

def reserveShape : Shape where
  options := [('c', "count")]
  most := 1
  accepts := fun text => (word64? text).isSome

def commandNames : List String := ["create", "info", "walk", "add-table", "reserve", "help"]

/-- The command that a name and its arguments ask for; none if help on it is asked for. -/
def parseCommand (name : String) (arguments : List String) : Except UsageError (Option Command) := do
  match name with
  | "create" =>
    let some found ← createShape.read arguments | return none
    return some (.create (found.option 'c' 4096) (found.option 'r' 50))
  | "info" =>
    let some _ ← Shape.read {} arguments | return none
    return some .info
  | "walk" =>
    let some found ← walkShape.read arguments | return none
    return some (.walk ((found.plain.head?.bind word64?).getD 0))
  | "add-table" =>
    let some found ← addTableShape.read arguments | return none
    match found.plain.head?.bind word32? with
    | some recordSize => return some (.addTable recordSize)
    | none => throw .missingArgument
  | "reserve" =>
    let some found ← reserveShape.read arguments | return none
    return some (.reserve ((found.plain.head?.bind word64?).getD 0) (found.option 'c' 1))
  | "help" =>
    match arguments with
    | [] => return none
    | [topic] => if topic ∈ commandNames then return none else throw (.unexpected topic)
    | topic :: _ => throw (.unexpected topic)
  | _ => throw (.unexpected name)

/-- The file used when none is named. -/
def defaultFile : String := "./data.rndb"

/-- Reads the items before a command, and the command. -/
def parseItems : List Item → Option String → Except UsageError Request
  | [], _ => .error .missingArgument
  | item :: rest, file =>
    match item with
    | .help => .ok .help
    | .version => .ok .version
    | .bad error => .error error
    | .plain text => .error (.unexpected text)
    | .option letter value =>
      if value = "" then .error (.invalidValue value)
      else if file.isSome then .error (.repeated letter)
      else parseItems rest (some value)
    | .command name arguments => do
      match ← parseCommand name arguments with
      | some command => return .run (file.getD defaultFile) command
      | none => return .help

def parse (arguments : List String) : Except UsageError Request :=
  parseItems
    (Grammar.items { options := [('f', "file")], version := true, commands := true } arguments) none

end RecordFile.CommandLine
