import QueryTyping.Json.Value
import QueryTyping.Names.Map
import QueryTyping.TypeSet.Basic

/-!
# Declared types

A variable is declared with one type or with several alternatives.  Each of them includes its
subtypes.
-/

namespace QueryTyping

/-- The declared type of a variable. -/
inductive Declared where
  | one (ty : Ty)
  | alternatives (tys : List Ty)
  deriving DecidableEq, Repr

namespace Declared

/-- The types that are named. -/
def named : Declared → List Ty
  | one t => [t]
  | alternatives ts => ts

/-- The types that a variable declared like this may have. -/
def types : Declared → TypeSet
  | one t => .covariant t
  | alternatives ts => .unions (ts.map TypeSet.covariant)

/-- The type of this name. -/
def typeOf? (name : String) : Option Ty := (Ty.read name).toOption

/-- Read a declared type from JSON. -/
def ofJson? : Json → Option Declared
  | .string s => (typeOf? s).map one
  | .array items => (items.mapM fun (v : Json) => v.string?.bind typeOf?).map alternatives
  | _ => none

end Declared

/-- Variables with their declared types. -/
abbrev Variables := NameMap Declared

/-- The names with the types they may have, in order. -/
def Variables.declarations (vars : Variables) : List (String × TypeSet) :=
  vars.entries.map fun e => (e.1, e.2.types)

end QueryTyping
