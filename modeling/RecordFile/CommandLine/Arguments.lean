/-!
How a list of arguments is taken apart: options with their values, plain arguments, and where the
arguments of a command begin. Arguments are read from the left, and the first bad one decides.
-/

namespace RecordFile.CommandLine

/-- Why arguments are refused. -/
inductive UsageError
  | unexpected (argument : String)
  | missingValue (option : String)
  | invalidValue (value : String)
  | repeated (letter : Char)
  | missingArgument
  deriving DecidableEq

def UsageError.message : UsageError → String
  | unexpected argument => s!"unexpected argument '{argument}'"
  | missingValue option => s!"a value is required for '{option}'"
  | invalidValue value => s!"invalid value '{value}'"
  | repeated letter => s!"the option '-{letter}' cannot be used multiple times"
  | missingArgument => "a required argument is missing"

/-- The form of one argument. -/
inductive Form
  /-- Two dashes: all that follows is plain. -/
  | escape
  | long (name : String) (value : Option String)
  /-- One dash, a letter and what is attached to it. -/
  | short (letter : Char) (value : Option String)
  | plain (text : String)
  deriving DecidableEq

/-- A single dash is plain, and so is all that does not start with one. -/
def Form.ofArgument (argument : String) : Form :=
  match argument.toList with
  | ['-', '-'] => .escape
  | '-' :: '-' :: rest =>
    let name := String.ofList (rest.takeWhile (· ≠ '='))
    match rest.dropWhile (· ≠ '=') with
    | [] => .long name none
    | _ :: value => .long name (some (String.ofList value))
  | '-' :: letter :: rest =>
    match rest with
    | [] => .short letter none
    | '=' :: value => .short letter (some (String.ofList value))
    | value => .short letter (some (String.ofList value))
  | _ => .plain argument

/-- What may stand before or after a command. -/
structure Grammar where
  /-- The options that take a value, each with its letter and its name. -/
  options : List (Char × String)
  /-- Whether the version can be asked for. -/
  version : Bool := false
  /-- Whether the first plain argument names a command, to which the rest belongs. -/
  commands : Bool := false

/-- What arguments turn out to be. -/
inductive Item
  | option (letter : Char) (value : String)
  | plain (text : String)
  | command (name : String) (arguments : List String)
  | help
  | version
  | bad (error : UsageError)
  deriving DecidableEq

/-- What a dashed argument asks for. -/
inductive Flag
  | help
  | version
  | option (letter : Char) (value : Option String)
  | unknown

def Grammar.flag (g : Grammar) : Form → Flag
  | .long "help" none => .help
  | .short 'h' _ => .help
  | .long "version" none => if g.version then .version else .unknown
  | .short 'V' _ => if g.version then .version else .unknown
  | .long name value =>
    match g.options.find? fun option => option.2 == name with
    | some (letter, _) => .option letter value
    | none => .unknown
  | .short letter value =>
    if g.options.any fun option => option.1 == letter then .option letter value else .unknown
  | .escape | .plain _ => .unknown

/-- The items in a list of arguments, up to the first that ends the reading. -/
def Grammar.items (g : Grammar) : List String → List Item
  | [] => []
  | argument :: rest =>
    match Form.ofArgument argument with
    | .escape => rest.map .plain
    | .plain text => if g.commands then [.command text rest] else .plain text :: g.items rest
    | form =>
      match g.flag form with
      | .help => [.help]
      | .version => [.version]
      | .option letter (some value) => .option letter value :: g.items rest
      | .option letter none =>
        match rest with
        | [] => [.bad (.missingValue argument)]
        | value :: rest =>
          match Form.ofArgument value with
          | .plain value => .option letter value :: g.items rest
          | _ => [.bad (.missingValue argument)]
      | .unknown => [.bad (.unexpected argument)]

/-- A decimal number: at least one ASCII digit and nothing else. -/
def decimal? (digits : List Char) : Option Nat :=
  if digits ≠ [] ∧ digits.all fun c => '0' ≤ c ∧ c ≤ '9' then
    some (digits.foldl (fun n c => 10 * n + (c.toNat - '0'.toNat)) 0)
  else
    none

/-- An unsigned number of 64 bits, which may have a plus sign. -/
def word64? (text : String) : Option UInt64 := do
  let digits := match text.toList with
    | '+' :: digits => digits
    | digits => digits
  let n ← decimal? digits
  if n < 0x10000000000000000 then some (UInt64.ofNat n) else none

/-- An unsigned number of 32 bits, which may have a sign: minus zero is zero. -/
def word32? (text : String) : Option UInt32 := do
  let (negative, digits) := match text.toList with
    | '+' :: digits => (false, digits)
    | '-' :: digits => (true, digits)
    | digits => (false, digits)
  let n ← decimal? digits
  if n < 0x100000000 ∧ (negative → n = 0) then some (UInt32.ofNat n) else none

end RecordFile.CommandLine
