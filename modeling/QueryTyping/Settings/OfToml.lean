import QueryTyping.Settings.Basic
import QueryTyping.Toml.Reader

/-!
# Reading settings

Settings are read from a TOML document with the tables `analysis` and `variables`, both of which
may be missing.  Nothing else may stand in it.  The table `analysis` may also be an array, which
then begins with the context.
-/

namespace QueryTyping

open Toml

/-- A table or an array without anything in it. -/
def Toml.isVoid : Toml → Bool
  | .array items => items.isEmpty
  | .table _ es => es.isEmpty
  | .tables items => items.isEmpty
  | .text _ | .scalar => false

/-- The context that a table names: its only key, with nothing in it. -/
def Context.ofEntries? : Entries → Option Context
  | [(name, v)] => if v.isVoid then ofName? name else none
  | _ => none

/-- Read a context. -/
def Context.ofToml? : Toml → Option Context
  | .text name => ofName? name
  | .table _ es => ofEntries? es
  | _ => none

/-- The type that a text names. -/
def Ty.ofToml? : Toml → Option Ty
  | .text name => Declared.typeOf? name
  | _ => none

/-- Read a declared type. -/
def Declared.ofToml? : Toml → Option Declared
  | .array items => (items.mapM Ty.ofToml?).map alternatives
  | v => (Ty.ofToml? v).map one

namespace Settings

/-- Every key is one of the given names. -/
def onlyKeys (names : List String) (es : Entries) : Bool := es.all fun e => names.contains e.1

/-- Read the context from the table of the analysis. -/
def contextOf? : Option Toml → Option Context
  | none => some .simple
  | some (.table _ es) =>
      if !onlyKeys ["context"] es then none
      else match es.lookup "context" with
        | none => some .simple
        | some v => Context.ofToml? v
  | some (.array items) =>
      match items with
      | [] => some .simple
      | v :: _ => Context.ofToml? v
  | some (.tables items) =>
      match items with
      | [] => some .simple
      | es :: _ => Context.ofEntries? es
  | some _ => none

/-- Read the variables. -/
def variablesOf? : Option Toml → Option Variables
  | none => some .empty
  | some (.table _ es) =>
      (es.mapM fun e => (Declared.ofToml? e.2).map fun d => (e.1, d)).map NameMap.ofList
  | some _ => none

/-- Read settings from the entries of a document. -/
def ofEntries? (es : Entries) : Option Settings := do
  if !onlyKeys ["analysis", "variables"] es then none
  let context ← contextOf? (es.lookup "analysis")
  let declared ← variablesOf? (es.lookup "variables")
  return ⟨context, declared⟩

/-- Read settings from their text. -/
def read? (text : String) : Option Settings := (Toml.read? text).bind ofEntries?

end Settings
end QueryTyping
