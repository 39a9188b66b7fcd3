import QueryTyping.Expr.Basic

/-!
# Kinds of nodes

A stored node names its kind and then has the fields of that kind, in a fixed order that starts
with its id and its span.

Main statement: `ofName_name` says that the name of a kind is read back.
-/

namespace QueryTyping

/-- The kinds of nodes, in their stored order. -/
inductive Kind where
  | integer
  | float
  | string
  | boolean
  | null
  | list
  | reference
  | parameter
  | property
  | unaryBefore
  | unaryAfter
  | binary
  | call
  | countStar
  | comprehension
  | quantified
  deriving DecidableEq, Repr, Inhabited

/-- What a field of a node holds. -/
inductive Slot where
  | id
  | span
  | integer
  | float
  | text
  | flag
  | unary (follows : Bool)
  | binary
  | quantifier
  | binding
  | expr
  | optionalExpr
  | exprs
  deriving DecidableEq, Repr

namespace Kind

/-- All kinds, in their stored order. -/
def all : List Kind :=
  [integer, float, string, boolean, null, list, reference, parameter, property, unaryBefore,
   unaryAfter, binary, call, countStar, comprehension, quantified]

/-- The stored name. -/
def name : Kind → String
  | integer => "IntegerLit"
  | float => "FloatLit"
  | string => "StringLit"
  | boolean => "BoolLit"
  | null => "NullLit"
  | list => "ListLit"
  | reference => "Variable"
  | parameter => "Parameter"
  | property => "Property"
  | unaryBefore => "Prefix"
  | unaryAfter => "Postfix"
  | binary => "Infix"
  | call => "FunctionCall"
  | countStar => "CountStar"
  | comprehension => "ListComprehension"
  | quantified => "IterablePredicate"

/-- The kind of this name. -/
def ofName? (name : String) : Option Kind := all.find? (·.name == name)

/-- The fields that only nodes of this kind have. -/
def ownFields : Kind → List (String × Slot)
  | integer => [("value", .integer)]
  | float => [("value", .float)]
  | string => [("value", .text)]
  | boolean => [("value", .flag)]
  | null | countStar => []
  | list => [("items", .exprs)]
  | reference | parameter => [("name", .text)]
  | property => [("map", .expr), ("key", .text)]
  | unaryBefore => [("op", .unary false), ("operand", .expr)]
  | unaryAfter => [("op", .unary true), ("operand", .expr)]
  | binary => [("op", .binary), ("lhs", .expr), ("rhs", .expr)]
  | call => [("name", .text), ("distinct", .flag), ("args", .exprs)]
  | comprehension =>
      [("variable", .binding), ("list", .expr), ("predicate", .optionalExpr),
       ("projection", .optionalExpr)]
  | quantified =>
      [("kind", .quantifier), ("variable", .binding), ("list", .expr),
       ("predicate", .optionalExpr)]

/-- All fields of a node of this kind, in their order. -/
def fields (k : Kind) : List (String × Slot) := ("id", .id) :: ("span", .span) :: k.ownFields

/-- What the field of this name holds. -/
def slot? (k : Kind) (name : String) : Option Slot := k.fields.lookup name

theorem ofName_name (k : Kind) : ofName? k.name = some k := by
  cases k <;> decide

end Kind

/-- The kind of a constant. -/
def Literal.kind : Literal → Kind
  | integer _ => .integer
  | float _ => .float
  | string _ => .string
  | boolean _ => .boolean
  | null => .null

/-- The kind of the topmost node. -/
def Expr.kind : Expr → Kind
  | literal _ v => v.kind
  | list .. => .list
  | reference .. => .reference
  | parameter .. => .parameter
  | property .. => .property
  | unary _ op _ => if op.follows then .unaryAfter else .unaryBefore
  | binary .. => .binary
  | call .. => .call
  | countStar _ => .countStar
  | comprehension .. => .comprehension
  | quantified .. => .quantified

end QueryTyping
