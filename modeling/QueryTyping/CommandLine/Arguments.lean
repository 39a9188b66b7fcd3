/-!
# Arguments

How the words of a command line are taken apart.  Words that start with a dash are switches or
options, as long as no word `--` came before; all others are operands.  An option takes the next
word that is no switch as its value, or what follows an equals sign.

What an option or an operand waits for is settled only when something else comes or the words end.
So of two faults the earlier one is reported, except that an unknown switch is reported at once.
-/

namespace QueryTyping

/-- Why arguments are not run as a command.  Asking for help or for the version is one reason. -/
inductive UsageError where
  | helpAsked
  | versionAsked
  | nothingAsked
  | missingCommand
  | unknownCommand
  | unknownArgument
  | unexpectedValue
  | badValue
  | repeated
  | missingOperand
  deriving DecidableEq, Repr

/-- What is said about arguments that are not run as a command. -/
def UsageError.message : UsageError → String
  | helpAsked | nothingAsked =>
      "usage: quarry [--json] [--verbose] check|deps|explain|help [arguments]"
  | versionAsked => "quarry 0.1.0"
  | missingCommand => "a command is missing"
  | unknownCommand => "there is no such command"
  | unknownArgument => "an argument is not known"
  | unexpectedValue => "a switch takes no value"
  | badValue => "a value is missing or not allowed"
  | repeated => "a switch is given twice"
  | missingOperand => "an operand is missing"

/-- What a word with a dash stands for. -/
inductive Switch where
  | flag (name : String)
  | option (name : String)
  | help
  | version
  deriving DecidableEq, Repr

/-- How many operands there may be. -/
inductive OperandCount where
  | one
  | many
  deriving DecidableEq, Repr

/-- What a command accepts. -/
structure Usage where
  long : List (String × Switch)
  short : List (Char × Switch)
  acceptsValue : String → String → Bool
  acceptsOperand : String → Bool
  operands : OperandCount

/-- What still has to be settled. -/
inductive Pending where
  | option (name : String) (value : Option String)
  | operands (words : List String)
  deriving DecidableEq, Repr

/-- What has been read so far. -/
structure Arguments where
  flags : List String
  options : List (String × String)
  operands : List String
  pending : Option Pending
  deriving DecidableEq, Repr

/-- A word that starts with a dash, taken apart. -/
inductive Dashed where
  | long (name : String) (value : Option String)
  | short (letters : List Char)
  | plain

namespace Dashed

/-- Take a word apart. -/
def ofWord (word : String) : Dashed :=
  match word.toList with
  | '-' :: '-' :: cs =>
      let name := String.ofList (cs.takeWhile (· != '='))
      match cs.dropWhile (· != '=') with
      | [] => long name none
      | _ :: value => long name (some (String.ofList value))
  | '-' :: c :: cs => short (c :: cs)
  | _ => plain

end Dashed

namespace Arguments

/-- Nothing has been read. -/
def none : Arguments := ⟨[], [], [], .none⟩

/-- Set an option.  It may be given once, with a value that it accepts. -/
def setOption (u : Usage) (name value : String) (a : Arguments) : Except UsageError Arguments :=
  if (a.options.lookup name).isSome then .error .repeated
  else if u.acceptsValue name value then .ok { a with options := a.options ++ [(name, value)] }
  else .error .badValue

/-- Settle what is pending. -/
def settle (u : Usage) (a : Arguments) : Except UsageError Arguments :=
  let rest := { a with pending := .none }
  match a.pending with
  | .none => .ok a
  | some (.operands words) =>
      if words.all u.acceptsOperand then .ok { rest with operands := a.operands ++ words }
      else .error .badValue
  | some (.option _ .none) => .error .badValue
  | some (.option name (some value)) => setOption u name value rest

/-- Set a flag, which may be given once. -/
def setFlag (name : String) (a : Arguments) : Except UsageError Arguments :=
  if a.flags.contains name then .error .repeated else .ok { a with flags := a.flags ++ [name] }

/-- Do what a switch without a value stands for. -/
def act (u : Usage) (s : Switch) (a : Arguments) : Except UsageError Arguments := do
  let a ← a.settle u
  match s with
  | .flag name => a.setFlag name
  | .option name => .ok { a with pending := some (.option name .none) }
  | .help => .error .helpAsked
  | .version => .error .versionAsked

/-- Read a long switch. -/
def readLong (u : Usage) (name : String) (value : Option String) (a : Arguments) :
    Except UsageError Arguments :=
  match u.long.lookup name, value with
  | .none, _ => .error .unknownArgument
  | some s, .none => a.act u s
  | some (.option name), some value => do setOption u name value (← a.settle u)
  | some _, some _ => .error .unexpectedValue

/-- Read short switches, letter by letter. -/
def readShort (u : Usage) : List Char → Arguments → Except UsageError Arguments
  | [], a => .ok a
  | c :: cs, a =>
      match u.short.lookup c with
      | .none => .error .unknownArgument
      | some s => do readShort u cs (← a.act u s)

/-- Read an operand. -/
def readOperand (u : Usage) (word : String) (a : Arguments) : Except UsageError Arguments :=
  match u.operands, a.pending with
  | .many, some (.operands words) => .ok { a with pending := some (.operands (words ++ [word])) }
  | .one, some (.operands _) => .error .unknownArgument
  | .one, _ =>
      if a.operands.isEmpty then do
        return { ← a.settle u with pending := some (.operands [word]) }
      else .error .unknownArgument
  | .many, _ => do
      return { ← a.settle u with pending := some (.operands [word]) }

/-- Read a word without a dash: the value of an option that waits for one, or an operand. -/
def readPlain (u : Usage) (word : String) (a : Arguments) : Except UsageError Arguments :=
  match a.pending with
  | some (.option name .none) => .ok { a with pending := some (.option name (some word)) }
  | _ => a.readOperand u word

/-- Read operands only. -/
def readOperands (u : Usage) : List String → Arguments → Except UsageError Arguments
  | [], a => a.settle u
  | word :: words, a => do readOperands u words (← a.readOperand u word)

/-- Read all words. -/
def read (u : Usage) : List String → Arguments → Except UsageError Arguments
  | [], a => a.settle u
  | word :: words, a =>
      if word = "--" then readOperands u words a
      else do
        match Dashed.ofWord word with
        | .long name value => read u words (← a.readLong u name value)
        | .short letters => read u words (← a.readShort u letters)
        | .plain => read u words (← a.readPlain u word)

end Arguments
end QueryTyping
