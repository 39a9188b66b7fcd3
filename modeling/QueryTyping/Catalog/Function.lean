import QueryTyping.Catalog.Operator

/-!
# Functions

The functions that queries may call.  A function is found by its name in any case; a few have a
second name.

Main statement: `mem_catalog_of_lookup` says that only functions of the catalog are found.
-/

namespace QueryTyping

/-- A known function. -/
structure Function where
  name : String
  aggregate : Bool
  signatures : List Signature
  deriving DecidableEq

namespace Function

open Signature Ty

/-- A function of single values. -/
def scalar (name : String) (signatures : List Signature) : Function := ⟨name, false, signatures⟩

/-- A function that combines the values of many results. -/
def aggregating (name : String) (signatures : List Signature) : Function := ⟨name, true, signatures⟩

/-- The least number of arguments. -/
def minArity (f : Function) : Nat := (f.signatures.map arity).min?.getD 0

/-- The largest number of arguments. -/
def maxArity (f : Function) : Nat := (f.signatures.map arity).max?.getD 0

/-- The functions, each with its names in lower case. -/
def catalog : List (List String × Function) :=
  [(["abs"], scalar "abs" [returning [integer] integer, returning [float] float]),
   (["ceil"], scalar "ceil" [returning [float] float]),
   (["floor"], scalar "floor" [returning [float] float]),
   (["round"], scalar "round" [returning [float] float]),
   (["sqrt"], scalar "sqrt" [returning [float] float]),
   (["sign"], scalar "sign" [returning [integer] integer, returning [float] integer]),
   (["tostring"], scalar "toString"
      [returning [number] string, returning [boolean] string, returning [string] string]),
   (["tointeger"], scalar "toInteger"
      [returning [number] integer, returning [string] integer]),
   (["tofloat"], scalar "toFloat" [returning [number] float, returning [string] float]),
   (["toboolean"], scalar "toBoolean"
      [returning [string] boolean, returning [boolean] boolean]),
   (["size"], scalar "size" [returning [list any] integer, returning [string] integer]),
   (["length"], scalar "length" [returning [path] integer]),
   (["head"], scalar "head" [⟨[list any], .all⟩]),
   (["last"], scalar "last" [⟨[list any], .all⟩]),
   (["range"], scalar "range"
      [returning [integer, integer] (list integer),
       returning [integer, integer, integer] (list integer)]),
   (["keys"], scalar "keys" [returning [map] (list string)]),
   (["upper", "toupper"], scalar "toUpper" [returning [string] string]),
   (["lower", "tolower"], scalar "toLower" [returning [string] string]),
   (["trim"], scalar "trim" [returning [string] string]),
   (["substring"], scalar "substring"
      [returning [string, integer] string, returning [string, integer, integer] string]),
   (["labels"], scalar "labels" [returning [node] (list string)]),
   (["type"], scalar "type" [returning [relationship] string]),
   (["nodes"], scalar "nodes" [returning [path] (list node)]),
   (["relationships"], scalar "relationships" [returning [path] (list relationship)]),
   (["exists"], scalar "exists" [returning [any] boolean]),
   (["id"], scalar "id" [returning [node] integer, returning [relationship] integer]),
   (["count"], aggregating "count" [returning [any] integer]),
   (["sum"], aggregating "sum" [returning [integer] integer, returning [float] float]),
   (["avg"], aggregating "avg" [returning [number] float]),
   (["min"], aggregating "min" [⟨[any], .all⟩]),
   (["max"], aggregating "max" [⟨[any], .all⟩]),
   (["collect"], aggregating "collect" [⟨[any], .covariant (list any)⟩])]

/-- A character in lower case, as far as that is an ASCII letter.  Besides the capital ASCII
letters only the Kelvin sign has such a lower case, and no name of the catalog holds any other
letter. -/
def lowerLetter (c : Char) : Char := if c = '\u212a' then 'k' else c.toLower

/-- The function of this name, in any case. -/
def lookup? (name : String) : Option Function :=
  let key := String.ofList (name.toList.map lowerLetter)
  (catalog.find? fun entry => entry.1.contains key).map (·.2)

/-- Only functions of the catalog are found. -/
theorem mem_catalog_of_lookup {name : String} {f : Function} (h : lookup? name = some f) :
    f ∈ catalog.map (·.2) := by
  obtain ⟨entry, hfind, rfl⟩ := Option.map_eq_some_iff.mp h
  exact List.mem_map_of_mem (List.mem_of_find?_eq_some hfind)

end Function
end QueryTyping
