import QueryTyping.Diagnostic.Problem

/-!
# Diagnostics

A diagnostic reports an error or a warning to the user.  Problems become errors; what may be
attached besides are the file and notes.  A bag is a list of diagnostics in the order of their
discovery.
-/

namespace QueryTyping

/-- How bad it is. -/
inductive Severity where
  | error
  | warning
  deriving DecidableEq, Repr, Inhabited

/-- The written form of a severity. -/
def Severity.name : Severity → String
  | error => "error"
  | warning => "warning"

/-- The severity of this name. -/
def Severity.ofName? (name : String) : Option Severity := [error, warning].find? (·.name == name)

/-- A report. -/
structure Diagnostic where
  code : String
  severity : Severity
  message : String
  span : Span
  file : Option String
  notes : List String
  deriving DecidableEq, Repr, Inhabited

/-- Whether it is an error and not only a warning. -/
def Diagnostic.isError (d : Diagnostic) : Bool := d.severity == .error

/-- What is said besides about an aggregation in the wrong place. -/
def aggregationNote : String := "aggregating functions are only allowed in result projections"

/-- The report of a problem, found in a file if one is known. -/
def Problem.diagnostic (p : Problem) (file : Option String) : Diagnostic where
  code := p.code
  severity := .error
  message := p.message
  span := p.span
  file := file
  notes := if p.code == Code.invalidAggregation.text then [aggregationNote] else []

/-- Diagnostics in order. -/
abbrev Bag := List Diagnostic

namespace Bag

/-- The number of errors. -/
def errorCount (bag : Bag) : Nat := bag.countP Diagnostic.isError

/-- The number of warnings. -/
def warningCount (bag : Bag) : Nat := bag.countP (!·.isError)

/-- Whether there is an error. -/
def hasErrors (bag : Bag) : Bool := bag.any Diagnostic.isError

end Bag
end QueryTyping
