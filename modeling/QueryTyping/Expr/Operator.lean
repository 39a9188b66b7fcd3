/-!
# Operators and quantifiers

The operators of the query language, with the word each is written with and the name under which
it is stored.

Main statements: `UnaryOp.ofName_name`, `BinaryOp.ofName_name` and `Quantifier.ofName_name` say
that a stored name is read back.
-/

namespace QueryTyping

/-- An operator with one operand.  The first three are written before it, the last two after. -/
inductive UnaryOp where
  | not
  | negate
  | plus
  | isNull
  | isNotNull
  deriving DecidableEq, Repr, Inhabited

namespace UnaryOp

/-- All operators with one operand. -/
def all : List UnaryOp := [not, negate, plus, isNull, isNotNull]

/-- The operator is written after its operand. -/
def follows : UnaryOp → Bool
  | not | negate | plus => false
  | isNull | isNotNull => true

/-- The stored name. -/
def name : UnaryOp → String
  | not => "Not"
  | negate => "Negate"
  | plus => "Plus"
  | isNull => "IsNull"
  | isNotNull => "IsNotNull"

/-- The written form. -/
def text : UnaryOp → String
  | not => "NOT"
  | negate => "-"
  | plus => "+"
  | isNull => "IS NULL"
  | isNotNull => "IS NOT NULL"

/-- The operator of this name that is written on the given side of its operand. -/
def ofName? (follows : Bool) (name : String) : Option UnaryOp :=
  all.find? fun op => op.follows == follows && op.name == name

theorem ofName_name (op : UnaryOp) : ofName? op.follows op.name = some op := by
  cases op <;> decide

end UnaryOp

/-- An operator between two operands. -/
inductive BinaryOp where
  | and
  | or
  | xor
  | eq
  | notEq
  | lt
  | ltEq
  | gt
  | gtEq
  | add
  | sub
  | mul
  | div
  | mod
  | pow
  | isIn
  | startsWith
  | endsWith
  | contains
  deriving DecidableEq, Repr, Inhabited

namespace BinaryOp

/-- All operators with two operands. -/
def all : List BinaryOp :=
  [and, or, xor, eq, notEq, lt, ltEq, gt, gtEq, add, sub, mul, div, mod, pow, isIn, startsWith,
   endsWith, contains]

/-- The stored name. -/
def name : BinaryOp → String
  | and => "And"
  | or => "Or"
  | xor => "Xor"
  | eq => "Eq"
  | notEq => "NotEq"
  | lt => "Lt"
  | ltEq => "LtEq"
  | gt => "Gt"
  | gtEq => "GtEq"
  | add => "Add"
  | sub => "Sub"
  | mul => "Mul"
  | div => "Div"
  | mod => "Mod"
  | pow => "Pow"
  | isIn => "In"
  | startsWith => "StartsWith"
  | endsWith => "EndsWith"
  | contains => "Contains"

/-- The written form. -/
def text : BinaryOp → String
  | and => "AND"
  | or => "OR"
  | xor => "XOR"
  | eq => "="
  | notEq => "<>"
  | lt => "<"
  | ltEq => "<="
  | gt => ">"
  | gtEq => ">="
  | add => "+"
  | sub => "-"
  | mul => "*"
  | div => "/"
  | mod => "%"
  | pow => "^"
  | isIn => "IN"
  | startsWith => "STARTS WITH"
  | endsWith => "ENDS WITH"
  | contains => "CONTAINS"

/-- The operator of this name. -/
def ofName? (name : String) : Option BinaryOp := all.find? (·.name == name)

theorem ofName_name (op : BinaryOp) : ofName? op.name = some op := by
  cases op <;> decide

end BinaryOp

/-- How many elements of a list must satisfy a predicate. -/
inductive Quantifier where
  | any
  | all
  | none
  | single
  deriving DecidableEq, Repr, Inhabited

namespace Quantifier

/-- The name of a quantifier, stored and written alike. -/
def name : Quantifier → String
  | any => "any"
  | all => "all"
  | none => "none"
  | single => "single"

/-- The quantifier of this name. -/
def ofName? (name : String) : Option Quantifier :=
  [any, all, none, single].find? (·.name == name)

theorem ofName_name (q : Quantifier) : ofName? q.name = some q := by
  cases q <;> decide

end Quantifier
end QueryTyping
