import QueryTyping.Diagnostic.Code
import QueryTyping.Expr.Operator
import QueryTyping.Span
import QueryTyping.TypeSet.Basic

/-!
# Problems

What can be wrong with an expression.  A problem is a cause at a position; it never stops the
analysis.  The wording is in one place, `Cause.message`.
-/

namespace QueryTyping

/-- What is wrong. -/
inductive Cause where
  | mismatch (expected actual : TypeSet)
  | noMap (actual : TypeSet)
  | undefined (name : String)
  | alreadyDeclared (name : String) (definition : Span)
  | conflict (specified known : TypeSet)
  | unknownFunction (name : String)
  | tooFewArguments (function : String)
  | tooManyArguments (function : String)
  | aggregation (invocation : String)
  | distinct (function : String)
  | missingPredicate (quantifier : Quantifier)
  | custom (code message : String)
  deriving DecidableEq

namespace Cause

/-- The report of types that do not fit. -/
def mismatchMessage (expected actual : TypeSet) : String :=
  "Type mismatch: expected " ++ expected.text ++ " but was " ++ actual.text

/-- The code of a cause. -/
def code : Cause → String
  | mismatch .. | noMap _ => Code.typeMismatch.text
  | undefined _ => Code.undefinedVariable.text
  | alreadyDeclared .. => Code.alreadyDeclared.text
  | conflict .. => Code.conflictingTypes.text
  | unknownFunction _ => Code.unknownFunction.text
  | tooFewArguments _ | tooManyArguments _ => Code.argumentCount.text
  | aggregation _ => Code.invalidAggregation.text
  | distinct _ => Code.invalidDistinct.text
  | missingPredicate _ => Code.missingPredicate.text
  | custom code _ => code

/-- The report of a cause. -/
def message : Cause → String
  | mismatch expected actual | conflict expected actual => mismatchMessage expected actual
  | noMap actual => "Type mismatch: expected a map but was " ++ actual.text
  | undefined name => "Variable `" ++ name ++ "` not defined"
  | alreadyDeclared name definition =>
      "Variable `" ++ name ++ "` already declared at " ++ toString definition.line ++ ":" ++
        toString definition.column
  | unknownFunction name => "Unknown function '" ++ name ++ "'"
  | tooFewArguments function => "Insufficient parameters for function '" ++ function ++ "'"
  | tooManyArguments function => "Too many parameters for function '" ++ function ++ "'"
  | aggregation invocation =>
      "Invalid use of aggregating function " ++ invocation ++ " in this context"
  | distinct function => "Invalid use of DISTINCT with function '" ++ function ++ "'"
  | missingPredicate q => q.name ++ "(...) requires a WHERE predicate"
  | custom _ message => message

end Cause

/-- A cause at a position. -/
structure Problem where
  cause : Cause
  span : Span
  deriving DecidableEq

namespace Problem

/-- The code of a problem. -/
def code (p : Problem) : String := p.cause.code

/-- The report of a problem. -/
def message (p : Problem) : String := p.cause.message

end Problem

end QueryTyping
