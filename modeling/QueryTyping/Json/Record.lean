import QueryTyping.Json.Value

/-!
# Records in JSON

A record with named fields is stored as an object, or as the array of its fields in their order.
A field may be missing; a known field occurs at most once.  Fields of other names are ignored, or
refused if the record is closed.
-/

namespace QueryTyping.Json

/-- The values of the fields with the given names, in the order of the names. -/
def record? (closed : Bool) (names : List String) : Json → Option (List (Option Json))
  | object fields =>
      if closed && fields.any (fun f => !names.contains f.1) then none
      else names.mapM fun name =>
        match fields.filter (·.1 == name) with
        | [] => some none
        | [f] => some (some f.2)
        | _ => none
  | array items =>
      if items.length ≤ names.length then
        some (items.map some ++ List.replicate (names.length - items.length) none)
      else none
  | _ => none

/-- The name in a value that stands for one of several cases: a string, or an object with that
name as its only field and nothing in it. -/
def case? (emptyObject : Bool) : Json → Option String
  | string s => some s
  | object [(s, null)] => some s
  | object [(s, object [])] => if emptyObject then some s else none
  | _ => none

/-- A field that holds a value or may be missing; `null` counts as missing. -/
def optional? {α : Type} (read : Json → Option α) : Option Json → Option (Option α)
  | none | some null => some none
  | some v => (read v).map some

end QueryTyping.Json
