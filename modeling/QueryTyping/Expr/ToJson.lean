import QueryTyping.Expr.Kind
import QueryTyping.Span.Json

/-!
# Storing expressions

The JSON form of an expression: the kind of the node, then its fields in their order.  A missing
predicate or projection is stored as `null`.
-/

namespace QueryTyping

/-- The stored form of a binding. -/
def Binding.toJson (b : Binding) : Json :=
  .object [("id", .ofNat b.id), ("span", b.span.toJson), ("name", .string b.name)]

/-- The field with the value of a constant. -/
def Literal.valueField : Literal → List (String × Json)
  | integer n => [("value", .int n)]
  | float x => [("value", .real x)]
  | string s => [("value", .string s)]
  | boolean b => [("value", .bool b)]
  | null => []

/-- The stored form of a node with its own fields. -/
def nodeJson (k : Kind) (n : Node) (own : List (String × Json)) : Json :=
  .object (("type", .string k.name) :: ("id", .ofNat n.id) :: ("span", n.span.toJson) :: own)

mutual

/-- The stored form of an expression. -/
def Expr.toJson : Expr → Json
  | .literal n v => nodeJson v.kind n v.valueField
  | .list n es => nodeJson .list n [("items", .array (toJsonAll es))]
  | .reference n x => nodeJson .reference n [("name", .string x)]
  | .parameter n x => nodeJson .parameter n [("name", .string x)]
  | .property n m k => nodeJson .property n [("map", m.toJson), ("key", .string k)]
  | .unary n op e =>
      nodeJson (if op.follows then .unaryAfter else .unaryBefore) n
        [("op", .string op.name), ("operand", e.toJson)]
  | .binary n op l r =>
      nodeJson .binary n [("op", .string op.name), ("lhs", l.toJson), ("rhs", r.toJson)]
  | .call n f d es =>
      nodeJson .call n [("name", .string f), ("distinct", .bool d), ("args", .array (toJsonAll es))]
  | .countStar n => nodeJson .countStar n []
  | .comprehension n b s p q =>
      nodeJson .comprehension n
        [("variable", b.toJson), ("list", s.toJson), ("predicate", toJsonOption p),
         ("projection", toJsonOption q)]
  | .quantified n k b s p =>
      nodeJson .quantified n
        [("kind", .string k.name), ("variable", b.toJson), ("list", s.toJson),
         ("predicate", toJsonOption p)]

/-- The stored forms of a list of expressions. -/
def toJsonAll : List Expr → List Json
  | [] => []
  | e :: es => e.toJson :: toJsonAll es

/-- The stored form of an expression that may be missing. -/
def toJsonOption : Option Expr → Json
  | none => .null
  | some e => e.toJson

end

end QueryTyping
