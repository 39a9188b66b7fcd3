import QueryTyping.Ty.Basic
import QueryTyping.Text.Blank

/-!
# Type names

How a type is written and read.  A type is written with its name, a list as `List<…>`.  Reading
ignores the case of ASCII letters and blanks around every name, also inside the brackets.

Main statements: `read_eq_ok_iff` says when reading succeeds, and `read_eq_error_iff` that a
refusal names the whole trimmed text, wherever the fault is.
-/

namespace QueryTyping.Ty

/-- The ten types that are not lists, with their names. -/
def baseNames : List (String × Ty) :=
  [("Any", any), ("Boolean", boolean), ("String", string), ("Number", number),
   ("Integer", integer), ("Float", float), ("Map", map), ("Node", node),
   ("Relationship", relationship), ("Path", path)]

/-- The written form of a type. -/
def name : Ty → String
  | any => "Any"
  | boolean => "Boolean"
  | string => "String"
  | number => "Number"
  | integer => "Integer"
  | float => "Float"
  | map => "Map"
  | node => "Node"
  | relationship => "Relationship"
  | path => "Path"
  | list element => "List<" ++ element.name ++ ">"

/-- A text with its ASCII letters in lower case. -/
def lower (cs : List Char) : List Char := cs.map Char.toLower

/-- The base type of this name, in any case. -/
def ofBaseName? (cs : List Char) : Option Ty :=
  (baseNames.find? fun entry => lower entry.1.toList == lower cs).map (·.2)

/-- What stands between `List<` and the closing bracket. -/
def elementText? (cs : List Char) : Option (List Char) :=
  if lower (cs.take 5) == "list<".toList && cs.getLast? == some '>' then
    some (cs.drop 5).dropLast
  else
    none

theorem length_elementText_lt {cs inner : List Char} (h : elementText? cs = some inner) :
    inner.length < cs.length := by
  unfold elementText? at h
  split at h
  · rename_i hcs
    cases h
    cases cs with
    | nil => simp at hcs
    | cons c cs => simp; omega
  · cases h

/-- Read a type from its characters. -/
def ofChars? (cs : List Char) : Option Ty :=
  match _h : elementText? (Text.trim cs) with
  | some inner => (ofChars? inner).map list
  | none => ofBaseName? (Text.trim cs)
termination_by cs.length
decreasing_by exact Nat.lt_of_lt_of_le (length_elementText_lt _h) (Text.length_trim_le cs)

/-- A text that is no type name, trimmed. -/
structure UnknownType where
  text : String
  deriving DecidableEq, Repr

/-- The report of an unknown type name. -/
def UnknownType.message (e : UnknownType) : String := "unknown type `" ++ e.text ++ "`"

/-- Read a type name. -/
def read (text : String) : Except UnknownType Ty :=
  match ofChars? text.toList with
  | some t => .ok t
  | none => .error ⟨String.ofList (Text.trim text.toList)⟩

theorem read_eq_ok_iff {text : String} {t : Ty} :
    read text = .ok t ↔ ofChars? text.toList = some t := by
  unfold read; split <;> simp_all

theorem read_eq_error_iff {text : String} {e : UnknownType} :
    read text = .error e ↔
      ofChars? text.toList = none ∧ e = ⟨String.ofList (Text.trim text.toList)⟩ := by
  unfold read; split <;> rename_i h <;> simp [h, eq_comm]

end QueryTyping.Ty
