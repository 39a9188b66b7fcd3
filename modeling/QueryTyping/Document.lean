import QueryTyping.Expr.Numbering
import QueryTyping.Expr.OfJson
import QueryTyping.Settings.Declared

/-!
# Query documents

A document holds expressions, the types of variables that they may use, and the query text that
their spans point into.
-/

namespace QueryTyping

/-- A document with expressions to check. -/
structure Document where
  source : Option String
  declared : Variables
  expressions : List Expr

namespace Document

/-- Read the variables; a later one hides an earlier one of the same name. -/
def variablesOf? : Option Json → Option Variables
  | none => some .empty
  | some (.object fields) =>
      (fields.mapM fun f => (Declared.ofJson? f.2).map fun d => (f.1, d)).map NameMap.ofList
  | some _ => none

/-- Read expressions, one after the other. -/
def expressionsOf : List Json → Draw (List Expr)
  | [] => pure []
  | v :: vs => do
      let e ← Expr.ofJson false v
      let es ← expressionsOf vs
      return e :: es

/-- Read a document.  Expressions in which ids are repeated are numbered anew. -/
def ofJson (v : Json) : Draw Document := do
  match ← liftM (v.record? true ["source", "variables", "expressions"]) with
  | [source, vars, some (.array expressions)] =>
      let source ← liftM (Json.optional? Json.string? source)
      let declared ← liftM (variablesOf? vars)
      let expressions ← expressionsOf expressions
      return { source, declared, expressions := expressions.map fun e => e.distinct.1 }
  | _ => failure

/-- Read a document from its text. -/
def read (text : String) : Draw Document := do
  ofJson (← liftM (Json.readStrict? text))

end Document
end QueryTyping
