/-!
# TOML values

The values of the TOML format, as far as a reader of settings needs them: texts are kept, other
single values are only known to be well formed.

A table remembers how it came about, because that decides what may be added to it.  A header may
take over a table that other headers implied, but not one that was written down already.  A dotted
key goes through tables that are implied or made by dotted keys, and ends in the latter kind.
Nothing is added to an inline table once it is closed.
-/

namespace QueryTyping

/-- How a table came about. -/
inductive TableOrigin where
  | header
  | implied
  | dotted
  | inline
  deriving DecidableEq, Repr

/-- A TOML value. -/
inductive Toml where
  | text (value : String)
  | scalar
  | array (items : List Toml)
  | table (origin : TableOrigin) (entries : List (String × Toml))
  | tables (items : List (List (String × Toml)))

namespace Toml

/-- The entries of a table, in order. -/
abbrev Entries := List (String × Toml)

/-- Replace the value of a key. -/
def replace (key : String) (v : Toml) (es : Entries) : Entries :=
  es.map fun e => if e.1 = key then (key, v) else e

/-- Change a table through a path of keys.  Tables that are missing on the way come about by
`fresh`.  In an array of tables the way goes through the last one. -/
def within (fresh : TableOrigin) (change : TableOrigin → Entries → Option Entries) :
    List String → TableOrigin → Entries → Option Entries
  | [], origin, es => change origin es
  | key :: path, _, es => do
      match es.lookup key with
      | none => return es ++ [(key, table fresh (← within fresh change path fresh []))]
      | some (.table origin inner) =>
          if origin = .inline ∨ fresh = .dotted ∧ origin = .header then none
          else return replace key (.table origin (← within fresh change path origin inner)) es
      | some (.tables items) =>
          let last ← items.getLast?
          return replace key (.tables (items.dropLast ++ [← within fresh change path .header last])) es
      | some _ => none

/-- Set a key that is new in a table. -/
def addKey (key : String) (v : Toml) (es : Entries) : Option Entries :=
  if (es.lookup key).isSome then none else some (es ++ [(key, v)])

/-- Set a dotted key: the path to its table, and the key in that table. -/
def addDotted (path : List String) (key : String) (v : Toml) (origin : TableOrigin) (es : Entries) :
    Option Entries :=
  let change (origin : TableOrigin) (es : Entries) : Option Entries :=
    if path.isEmpty ∨ origin = .dotted then addKey key v es else none
  within .dotted change path origin es

/-- The table of a header.  A table that was implied so far is taken over. -/
def addTable (key : String) (es : Entries) : Option Entries :=
  match es.lookup key with
  | none => some (es ++ [(key, .table .header [])])
  | some (.table .implied inner) => some (replace key (.table .header inner) es)
  | some _ => none

/-- One more table in the array of tables of a header. -/
def addTables (key : String) (es : Entries) : Option Entries :=
  match es.lookup key with
  | none => some (es ++ [(key, .tables [[]])])
  | some (.tables items) => some (replace key (.tables (items ++ [[]])) es)
  | some _ => none

end Toml
end QueryTyping
