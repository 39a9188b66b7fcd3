import QueryTyping.Json.Token

/-!
# Reading JSON

Reading is one pass over the tokens with a stack of the brackets that are open.  Each token either
moves the pass on or refuses the text.

Main statements: `step_after_nil` says that nothing may follow the outermost value, and
`readStrict_eq_some_iff` that strict reading adds exactly soundness and the nesting limit.
-/

namespace QueryTyping.Json

/-- An open bracket with the values read in it so far, last first. -/
inductive Frame where
  | items (done : List Json)
  | fields (done : List (Option String × Json))
  | field (done : List (Option String × Json)) (key : Option String)

/-- What the next token may be. -/
inductive Place where
  | value
  | firstItem
  | firstKey
  | nextKey
  | colon (key : Option String)
  | after (v : Json)

/-- The object of the given fields.  It is broken if one of its keys is. -/
def ofFields (fields : List (Option String × Json)) : Json :=
  match fields.mapM fun f => f.1.map fun k => (k, f.2) with
  | some fields => object fields
  | none => broken

/-- The value of a string. -/
def ofText : Option String → Json
  | some s => string s
  | none => broken

/-- The start of a value. -/
def startValue (stack : List Frame) : Token → Option (Place × List Frame)
  | .openArray => some (.firstItem, .items [] :: stack)
  | .openObject => some (.firstKey, .fields [] :: stack)
  | .leaf v => some (.after v, stack)
  | .text s => some (.after (ofText s), stack)
  | .closeArray | .closeObject | .comma | .colon => none

/-- What a token does. -/
def step : Place × List Frame → Token → Option (Place × List Frame)
  | (.value, stack), t => startValue stack t
  | (.firstItem, .items done :: stack), .closeArray => some (.after (array done.reverse), stack)
  | (.firstItem, stack), t => startValue stack t
  | (.firstKey, .fields done :: stack), .closeObject =>
      some (.after (ofFields done.reverse), stack)
  | (.firstKey, stack), .text k | (.nextKey, stack), .text k => some (.colon k, stack)
  | (.colon k, .fields done :: stack), .colon => some (.value, .field done k :: stack)
  | (.after v, .items done :: stack), .comma => some (.value, .items (v :: done) :: stack)
  | (.after v, .items done :: stack), .closeArray =>
      some (.after (array (v :: done).reverse), stack)
  | (.after v, .field done k :: stack), .comma => some (.nextKey, .fields ((k, v) :: done) :: stack)
  | (.after v, .field done k :: stack), .closeObject =>
      some (.after (ofFields ((k, v) :: done).reverse), stack)
  | _, _ => none

/-- The pass over all tokens. -/
def run (place : Place × List Frame) (ts : List Token) : Option (Place × List Frame) :=
  ts.foldlM step place

/-- The value of a whole text, broken parts included. -/
def read? (text : String) : Option Json :=
  match (tokens? text.toList).bind (run (.value, [])) with
  | some (.after v, []) => some v
  | _ => none

/-- The largest number of brackets around a value. -/
def nestingLimit : Nat := 127

/-- The value of a whole text that is sound and not nested too deeply. -/
def readStrict? (text : String) : Option Json :=
  (read? text).filter fun v => v.sound && v.depth ≤ nestingLimit

/-- Nothing follows the outermost value. -/
theorem step_after_nil (v : Json) (t : Token) : step (.after v, []) t = none := by
  cases t <;> rfl

theorem readStrict_eq_some_iff {text : String} {v : Json} :
    readStrict? text = some v ↔ read? text = some v ∧ v.sound = true ∧ v.depth ≤ nestingLimit := by
  simp [readStrict?, Option.filter_eq_some_iff]

end QueryTyping.Json
