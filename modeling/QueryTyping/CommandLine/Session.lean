import QueryTyping.Expr.OfJson
import QueryTyping.CommandLine.Arguments
import QueryTyping.Diagnostic.Problem
import QueryTyping.Files.Tree

/-!
# Sessions

A session is one run of the program.  It prints lines to two channels, draws fresh ids for the
documents one after another, and may end early with a fault.  What was printed before a fault
stays.
-/

namespace QueryTyping

/-- What ends a run. -/
inductive Fault where
  | usage (error : UsageError)
  | unreadable (path : Path) (error : AccessError)
  | notDocument (path : Path)
  | unreadableSettings (path : Path) (error : AccessError)
  | badSettings (path : Path)
  | badDeclaration (path : Path) (problem : Problem)
  | unknownCode (code : String)

/-- The report of a fault. -/
def Fault.message : Fault → String
  | usage e => e.message
  | unreadable p _ => "failed to read " ++ p.text
  | notDocument p => p.text ++ " is not a valid query document"
  | unreadableSettings p e => "failed to read " ++ p.text ++ ": " ++ e.message
  | badSettings p => "invalid configuration in " ++ p.text
  | badDeclaration p problem =>
      "invalid variable declaration in " ++ p.text ++ ": " ++ problem.message
  | unknownCode code => "unknown code `" ++ code ++ "`"

/-- What has been printed, and the next fresh id. -/
structure Progress where
  next : NodeId
  out : String
  err : String

/-- At the start of a run nothing has been printed, and ids start at 1. -/
def Progress.start : Progress := ⟨1, "", ""⟩

/-- A step of a run. -/
abbrev Session (α : Type) := ExceptT Fault (StateM Progress) α

namespace Session

/-- Print a line of results. -/
def print (line : String) : Session Unit := modify fun p => { p with out := p.out ++ line ++ "\n" }

/-- Print a line of messages. -/
def warn (line : String) : Session Unit := modify fun p => { p with err := p.err ++ line ++ "\n" }

/-- End the run. -/
def fail {α : Type} (f : Fault) : Session α := throw f

/-- Draw fresh ids; the run ends if that fails. -/
def draw {α : Type} (d : Draw α) (f : Fault) : Session α := do
  match d (← get).next with
  | some (a, next) =>
      modify fun p => { p with next }
      return a
  | none => fail f

/-- What an access gives; the run ends if it failed. -/
def access {α : Type} (r : Except AccessError α) (f : AccessError → Fault) : Session α :=
  match r with
  | .ok a => pure a
  | .error e => fail (f e)

end Session
end QueryTyping
