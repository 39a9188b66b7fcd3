import QueryTyping.Expr.Kind
import QueryTyping.Json.Reader
import QueryTyping.Span.Json

/-!
# Reading expressions

Reading the stored form of an expression.  A node is an object that names its kind, in any place,
or the array of the kind's name and the fields in their order.  Fields of other names are ignored.
Inside another node the kind may also be given by its position in the list of kinds.

A node or binding that comes without an id draws a fresh one once it has been read, so ids are
drawn in the order of the text, and by children before their parent.
-/

namespace QueryTyping

/-- A step of reading that may fail and may draw fresh ids. -/
abbrev Draw (α : Type) := StateT NodeId Option α

/-- The next fresh id. -/
def fresh : Draw NodeId := fun next => some (next, next + 1)

/-- An id that is given, or else a fresh one. -/
def drawId : Option NodeId → Draw NodeId
  | some n => pure n
  | none => fresh

/-- Read a binding. -/
def Binding.ofJson (v : Json) : Draw Binding := do
  match ← liftM (v.record? false ["id", "span", "name"]) with
  | [id, span, some name] =>
      let given : Option NodeId ← match id with
        | none => pure none
        | some v => some <$> liftM (v.nat? wordLimit)
      let span ← liftM (Span.ofJsonOr? span)
      let name ← liftM name.string?
      return { id := ← drawId given, span, name }
  | _ => failure

/-- What was read from a field of a node. -/
inductive Part where
  | id (n : NodeId)
  | span (s : Span)
  | integer (n : Int)
  | float (x : Binary64)
  | text (s : String)
  | flag (b : Bool)
  | unary (op : UnaryOp)
  | binary (op : BinaryOp)
  | quantifier (q : Quantifier)
  | binding (b : Binding)
  | expr (e : Expr)
  | absent
  | exprs (es : List Expr)

/-- The parts of a node that have been read, by field. -/
abbrev Parts := List (String × Part)

namespace Parts

/-- The id of the node, if it has been given. -/
def id? (ps : Parts) : Option NodeId :=
  match ps.lookup "id" with
  | some (.id n) => some n
  | _ => none

/-- The span of the node. -/
def span (ps : Parts) : Span :=
  match ps.lookup "span" with
  | some (.span s) => s
  | _ => .unknown

/-- A text field. -/
def text? (ps : Parts) (field : String) : Option String :=
  match ps.lookup field with
  | some (.text s) => some s
  | _ => none

/-- A field with an expression. -/
def expr? (ps : Parts) (field : String) : Option Expr :=
  match ps.lookup field with
  | some (.expr e) => some e
  | _ => none

/-- A field with an expression that may be missing. -/
def optionalExpr (ps : Parts) (field : String) : Option Expr := ps.expr? field

/-- A field with a list of expressions. -/
def exprs? (ps : Parts) (field : String) : Option (List Expr) :=
  match ps.lookup field with
  | some (.exprs es) => some es
  | _ => none

/-- The binding of a filter. -/
def binding? (ps : Parts) : Option Binding :=
  match ps.lookup "variable" with
  | some (.binding b) => some b
  | _ => none

/-- The constant of a literal. -/
def literal? (ps : Parts) : Option Literal :=
  match ps.lookup "value" with
  | some (.integer n) => some (.integer n)
  | some (.float x) => some (.float x)
  | some (.text s) => some (.string s)
  | some (.flag b) => some (.boolean b)
  | _ => none

/-- The operator of an operation with one operand. -/
def unary? (ps : Parts) : Option UnaryOp :=
  match ps.lookup "op" with
  | some (.unary op) => some op
  | _ => none

/-- The operator of an operation with two operands. -/
def binary? (ps : Parts) : Option BinaryOp :=
  match ps.lookup "op" with
  | some (.binary op) => some op
  | _ => none

/-- The quantifier of a quantified predicate. -/
def quantifier? (ps : Parts) : Option Quantifier :=
  match ps.lookup "kind" with
  | some (.quantifier q) => some q
  | _ => none

/-- Whether a call is marked as distinct; by default it is not. -/
def distinct (ps : Parts) : Bool :=
  match ps.lookup "distinct" with
  | some (.flag b) => b
  | _ => false

/-- The node of a kind with the given parts, if none is missing. -/
def build? (ps : Parts) (n : Node) : Kind → Option Expr
  | .integer | .float | .string | .boolean => do some (.literal n (← ps.literal?))
  | .null => some (.literal n .null)
  | .list => do some (.list n (← ps.exprs? "items"))
  | .reference => do some (.reference n (← ps.text? "name"))
  | .parameter => do some (.parameter n (← ps.text? "name"))
  | .property => do some (.property n (← ps.expr? "map") (← ps.text? "key"))
  | .unaryBefore | .unaryAfter => do some (.unary n (← ps.unary?) (← ps.expr? "operand"))
  | .binary => do some (.binary n (← ps.binary?) (← ps.expr? "lhs") (← ps.expr? "rhs"))
  | .call => do some (.call n (← ps.text? "name") ps.distinct (← ps.exprs? "args"))
  | .countStar => some (.countStar n)
  | .comprehension => do
      some (.comprehension n (← ps.binding?) (← ps.expr? "list") (ps.optionalExpr "predicate")
        (ps.optionalExpr "projection"))
  | .quantified => do
      some (.quantified n (← ps.quantifier?) (← ps.binding?) (← ps.expr? "list")
        (ps.optionalExpr "predicate"))

/-- The node of a kind with the given parts; its id is drawn last. -/
def assemble (ps : Parts) (k : Kind) : Draw Expr := do
  let id ← drawId ps.id?
  liftM (ps.build? ⟨id, ps.span⟩ k)

end Parts

/-- Read a field that holds no expression. -/
def readPlain? (v : Json) : Slot → Option Part
  | .id => do some (.id (← v.nat? wordLimit))
  | .span => do some (.span (← Span.ofJson? v))
  | .integer =>
      match v with
      | .int n =>
          if -0x8000000000000000 ≤ n ∧ n < 0x8000000000000000 then some (.integer n) else none
      | _ => none
  | .float =>
      match v with
      | .int n => some (.float (.ofInt n))
      | .real x => some (.float x)
      | _ => none
  | .text => do some (.text (← v.string?))
  | .flag =>
      match v with
      | .bool b => some (.flag b)
      | _ => none
  | .unary follows => do some (.unary (← UnaryOp.ofName? follows (← v.case? true)))
  | .binary => do some (.binary (← BinaryOp.ofName? (← v.case? true)))
  | .quantifier => do some (.quantifier (← Quantifier.ofName? (← v.case? true)))
  | .binding | .expr | .optionalExpr | .exprs => none

/-- Read a field, given how to read its value as one expression and as a list of them. -/
def readPart (v : Json) (one : Draw Expr) (many : Draw (List Expr)) : Slot → Draw Part
  | .binding => .binding <$> Binding.ofJson v
  | .expr => .expr <$> one
  | .optionalExpr =>
      match v with
      | .null => pure .absent
      | _ => .expr <$> one
  | .exprs => .exprs <$> many
  | slot => liftM (readPlain? v slot)

/-- The kind that a value names. -/
def Kind.ofTag? (inner : Bool) : Json → Option Kind
  | .string s => Kind.ofName? s
  | .int n => if inner ∧ 0 ≤ n then Kind.all[n.toNat]? else none
  | _ => none

/-- The kind that the fields of an object name. -/
def Kind.ofFields? (inner : Bool) (fields : List (String × Json)) : Option Kind :=
  match fields.filter (·.1 == "type") with
  | [(_, v)] => Kind.ofTag? inner v
  | _ => none

mutual

/-- Read a node; `inner` says whether it stands in another one. -/
def Expr.ofJson (inner : Bool) : Json → Draw Expr
  | .object fields => do
      let kind ← liftM (Kind.ofFields? inner fields)
      (← readFields kind fields).assemble kind
  | .array (tag :: items) => do
      let kind ← liftM (Kind.ofTag? inner tag)
      (← readItems kind.fields items).assemble kind
  | _ => failure

/-- Read the fields of an object, in the order of the text. -/
def readFields (kind : Kind) : List (String × Json) → Draw Parts
  | [] => pure []
  | (key, v) :: rest => do
      match kind.slot? key with
      | none => readFields kind rest
      | some slot =>
          let part ← readPart v (Expr.ofJson true v) (exprsOfJson v) slot
          let parts ← readFields kind rest
          if (parts.lookup key).isSome then failure
          return (key, part) :: parts

/-- Read the fields of a node that is stored as an array. -/
def readItems : List (String × Slot) → List Json → Draw Parts
  | _, [] => pure []
  | [], _ :: _ => failure
  | (key, slot) :: fields, v :: rest => do
      let part ← readPart v (Expr.ofJson true v) (exprsOfJson v) slot
      let parts ← readItems fields rest
      return (key, part) :: parts

/-- Read a list of nodes inside another one. -/
def exprsOfJson : Json → Draw (List Expr)
  | .array items => innerExprs items
  | _ => failure

/-- Read nodes inside another one, one after the other. -/
def innerExprs : List Json → Draw (List Expr)
  | [] => pure []
  | v :: rest => do
      let e ← Expr.ofJson true v
      let es ← innerExprs rest
      return e :: es

end

/-- Read an expression from its text. -/
def Expr.read (text : String) : Draw Expr := do
  let v ← liftM (Json.readStrict? text)
  Expr.ofJson false v

end QueryTyping
