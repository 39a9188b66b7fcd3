/-!
# Codes

Every kind of error and warning has a code by which it can be looked up, and a text that explains
it.

Main statements: `ofText_text` says that a written code is read back, and `text_injective` that
different kinds have different codes.
-/

namespace QueryTyping

/-- The kinds of errors and warnings. -/
inductive Code where
  | typeMismatch
  | undefinedVariable
  | alreadyDeclared
  | conflictingTypes
  | unknownFunction
  | argumentCount
  | invalidAggregation
  | invalidDistinct
  | missingPredicate
  | unusedVariable
  deriving DecidableEq, Repr, Inhabited

namespace Code

/-- All codes. -/
def all : List Code :=
  [typeMismatch, undefinedVariable, alreadyDeclared, conflictingTypes, unknownFunction,
   argumentCount, invalidAggregation, invalidDistinct, missingPredicate, unusedVariable]

/-- The written form of a code. -/
def text : Code → String
  | typeMismatch => "E1001"
  | undefinedVariable => "E1002"
  | alreadyDeclared => "E1003"
  | conflictingTypes => "E1004"
  | unknownFunction => "E1005"
  | argumentCount => "E1006"
  | invalidAggregation => "E1007"
  | invalidDistinct => "E1008"
  | missingPredicate => "E1009"
  | unusedVariable => "W0001"

/-- The code with this written form. -/
def ofText? (text : String) : Option Code := all.find? (·.text == text)

/-- What a code means. -/
def explanation : Code → String
  | typeMismatch =>
      "Type mismatch\n\n" ++
      "An expression's inferred types do not intersect the types its position " ++
      "accepts, e.g. `'a' AND true` where AND accepts only Boolean operands. " ++
      "The message lists the accepted types and the inferred ones, each joined " ++
      "with ' or '."
  | undefinedVariable =>
      "Variable not defined\n\n" ++
      "An identifier is read that no enclosing scope declares. Declare it in " ++
      "the `[variables]` table of quarry.toml or bind it with a list " ++
      "comprehension or iterable predicate."
  | alreadyDeclared =>
      "Variable already declared\n\n" ++
      "A name is declared twice in the same scope. Nested comprehensions open " ++
      "a new scope and may reuse a name."
  | conflictingTypes =>
      "Conflicting type specification\n\n" ++
      "An expression was already known to have types that do not intersect the " ++
      "newly inferred ones."
  | unknownFunction =>
      "Unknown function\n\n" ++
      "The invoked function is not part of the built-in catalog. Function names " ++
      "are matched case-insensitively."
  | argumentCount =>
      "Wrong argument count\n\n" ++
      "The function is invoked with a number of arguments none of its " ++
      "signatures accepts."
  | invalidAggregation =>
      "Invalid use of aggregating function\n\n" ++
      "Aggregating functions such as count() or collect() are only allowed in " ++
      "result projections, not in predicates or comprehension bodies."
  | invalidDistinct =>
      "Invalid use of DISTINCT\n\n" ++
      "DISTINCT is only meaningful for aggregating functions."
  | missingPredicate =>
      "Missing predicate\n\n" ++
      "any(), all(), none() and single() require a WHERE predicate."
  | unusedVariable =>
      "Unused variable\n\n" ++
      "A variable declared in the query document is not read by any of the " ++
      "document's expressions. Variables from quarry.toml are shared by every " ++
      "document and are never reported."

theorem ofText_text (c : Code) : ofText? c.text = some c := by
  cases c <;> decide

theorem text_injective {c d : Code} (h : c.text = d.text) : c = d := by
  have hc := ofText_text c
  rw [h, ofText_text d] at hc
  exact (Option.some.inj hc).symm

end Code
end QueryTyping
