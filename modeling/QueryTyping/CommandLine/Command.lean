import QueryTyping.CommandLine.Arguments
import QueryTyping.Context

/-!
# Commands

What the program can be asked to do: check documents, list the variables that expressions depend
on, or explain a code.
-/

namespace QueryTyping

/-- How documents are checked. -/
structure CheckOptions where
  settings : Option String
  context : Option Context
  showTypes : Bool
  strict : Bool
  deriving DecidableEq, Repr

/-- What is to be done. -/
inductive Command where
  | check (paths : List String) (options : CheckOptions)
  | dependencies (paths : List String)
  | explain (code : String)
  deriving DecidableEq, Repr

/-- A command and the form of its output. -/
structure Request where
  json : Bool
  command : Command
  deriving DecidableEq, Repr

namespace Command

/-- The switches of every command, by their long names. -/
def commonLong : List (String × Switch) :=
  [("json", .flag "json"), ("verbose", .flag "verbose"), ("help", .help)]

/-- The switches of every command, by their letters. -/
def commonShort : List (Char × Switch) := [('v', .flag "verbose"), ('h', .help)]

/-- Paths must not be empty. -/
def isPath (word : String) : Bool := word != ""

/-- What may stand before the name of a command. -/
def topUsage : Usage where
  long := commonLong ++ [("version", .version)]
  short := commonShort ++ [('V', .version)]
  acceptsValue _ _ := false
  acceptsOperand _ := false
  operands := .one

/-- What may follow the name of the command that checks documents. -/
def checkUsage : Usage where
  long :=
    commonLong ++
      [("config", .option "config"), ("context", .option "context"), ("types", .flag "types"),
       ("strict", .flag "strict")]
  short := commonShort
  acceptsValue name value :=
    if name == "context" then (Context.ofName? value).isSome else isPath value
  acceptsOperand := isPath
  operands := .many

/-- What may follow the name of the command that lists dependencies. -/
def dependenciesUsage : Usage where
  long := commonLong
  short := commonShort
  acceptsValue _ _ := false
  acceptsOperand := isPath
  operands := .many

/-- What may follow the name of the command that explains a code. -/
def explainUsage : Usage where
  long := commonLong
  short := commonShort
  acceptsValue _ _ := false
  acceptsOperand _ := true
  operands := .one

/-- The names of the commands. -/
def names : List String := ["check", "deps", "explain", "help"]

/-- The paths that are given, or else the working directory. -/
def pathsOf (a : Arguments) : List String :=
  if a.operands.isEmpty then ["."] else a.operands

/-- The request that the arguments of a command make. -/
def request (json : Bool) (a : Arguments) (command : Command) : Request :=
  ⟨json || a.flags.contains "json", command⟩

/-- Read what follows the name of a command. -/
def ofName (json : Bool) (name : String) (words : List String) : Except UsageError Request :=
  match name with
  | "check" => do
      let a ← Arguments.read checkUsage words .none
      return request json a <| .check (pathsOf a)
        { settings := a.options.lookup "config"
          context := (a.options.lookup "context").bind Context.ofName?
          showTypes := a.flags.contains "types"
          strict := a.flags.contains "strict" }
  | "deps" => do
      let a ← Arguments.read dependenciesUsage words .none
      return request json a (.dependencies (pathsOf a))
  | "explain" => do
      let a ← Arguments.read explainUsage words .none
      match a.operands.head? with
      | some code => return request json a (.explain code)
      | none => .error .missingOperand
  | _ =>
      match words with
      | [] => .error .helpAsked
      | [topic] => .error (if names.contains topic then .helpAsked else .unknownCommand)
      | _ => .error .unknownCommand

/-- Without a command, whatever switches there are, nothing can be done. -/
def withoutCommand (a : Arguments) : UsageError :=
  if a.flags.isEmpty then .nothingAsked else .missingCommand

/-- Read arguments up to the name of a command, and then the rest. -/
def ofWords : List String → Arguments → Except UsageError Request
  | [], a => .error (withoutCommand a)
  | word :: words, a =>
      if names.contains word then ofName (a.flags.contains "json") word words
      else if word = "--" then
        match words with
        | [] => .error (withoutCommand a)
        | next :: _ =>
            .error (if names.contains next then .unknownArgument else .unknownCommand)
      else
        match Dashed.ofWord word with
        | .long name value => do ofWords words (← a.readLong topUsage name value)
        | .short letters => do ofWords words (← a.readShort topUsage letters)
        | .plain => .error .unknownCommand

/-- Read the arguments of the program. -/
def ofArguments (words : List String) : Except UsageError Request := ofWords words .none

/-- The paths that a command reads from. -/
def mentioned : Command → List String
  | check paths options => paths ++ options.settings.toList
  | dependencies paths => paths
  | explain _ => []

end Command
end QueryTyping
