import QueryTyping.Diagnostic.Basic
import QueryTyping.Json.Reader
import QueryTyping.Span.Json

/-!
# Diagnostics for machines

The JSON form of a diagnostic, and reading it.  A missing file and an empty list of notes are left
out when it is written.
-/

namespace QueryTyping

/-- The stored form of a note. -/
def noteJson (message : String) : Json := .object [("message", .string message)]

/-- Read a note. -/
def noteOfJson? (v : Json) : Option String := do
  match ← v.record? false ["message"] with
  | [some message] => message.string?
  | _ => none

/-- Read notes, which may be missing. -/
def notesOfJson? : Option Json → Option (List String)
  | none => some []
  | some (.array notes) => notes.mapM noteOfJson?
  | some _ => none

namespace Diagnostic

/-- The fields that are written only if there is something in them. -/
def optionalFields (d : Diagnostic) : List (String × Json) :=
  (match d.file with
    | some file => [("file", .string file)]
    | none => []) ++
  (if d.notes.isEmpty then [] else [("notes", .array (d.notes.map noteJson))])

/-- The stored form of a diagnostic. -/
def toJson (d : Diagnostic) : Json :=
  .object
    ([("code", .string d.code), ("severity", .string d.severity.name),
      ("message", .string d.message), ("span", d.span.toJson)] ++ d.optionalFields)

/-- Read a diagnostic from its stored form. -/
def ofJson? (v : Json) : Option Diagnostic := do
  match ← v.record? false ["code", "severity", "message", "span", "file", "notes"] with
  | [some code, some severity, some message, some span, file, notes] =>
      some
        { code := ← code.string?
          severity := ← Severity.ofName? (← severity.case? false)
          message := ← message.string?
          span := ← Span.ofJson? span
          file := ← Json.optional? Json.string? file
          notes := ← notesOfJson? notes }
  | _ => none

/-- Read a diagnostic from its text.  What stands in unknown fields is skipped, even if it denotes
no value. -/
def read? (text : String) : Option Diagnostic := (Json.read? text).bind ofJson?

end Diagnostic

/-- The stored form of a bag. -/
def Bag.toJson (bag : Bag) : Json := .array (bag.map Diagnostic.toJson)

end QueryTyping
