import QueryTyping.Expr.Operator
import QueryTyping.Binary64.Basic
import QueryTyping.Span

/-!
# Expressions

An expression is a tree of nodes.  Each node has an id, under which the analysis keeps what it
learns about it, and a span.  A comprehension and a quantified predicate are filters: they bind a
name for the elements of a list, and the binding has an id of its own.

Main statements: `mem_children_lt` says that a child is smaller than its node, and
`children_induction` is the induction over trees that it gives.
-/

namespace QueryTyping

/-- What tells one node or binding from another. -/
abbrev NodeId := Nat

/-- The identity and the position of a node. -/
structure Node where
  id : NodeId
  span : Span
  deriving DecidableEq, Repr, Inhabited

/-- A name introduced by a filter. -/
structure Binding where
  id : NodeId
  span : Span
  name : String
  deriving DecidableEq, Repr, Inhabited

/-- The identity and the position of a binding. -/
def Binding.node (b : Binding) : Node := ⟨b.id, b.span⟩

/-- A constant. -/
inductive Literal where
  | integer (value : Int)
  | float (value : Binary64)
  | string (value : String)
  | boolean (value : Bool)
  | null
  deriving DecidableEq, Repr, Inhabited

/-- An expression. -/
inductive Expr where
  | literal (node : Node) (value : Literal)
  | list (node : Node) (elements : List Expr)
  | reference (node : Node) (name : String)
  | parameter (node : Node) (name : String)
  | property (node : Node) (map : Expr) (key : String)
  | unary (node : Node) (op : UnaryOp) (operand : Expr)
  | binary (node : Node) (op : BinaryOp) (left right : Expr)
  | call (node : Node) (name : String) (distinct : Bool) (arguments : List Expr)
  | countStar (node : Node)
  | comprehension (node : Node) (bound : Binding) (source : Expr) (predicate : Option Expr)
      (projection : Option Expr)
  | quantified (node : Node) (quantifier : Quantifier) (bound : Binding) (source : Expr)
      (predicate : Option Expr)
  deriving Inhabited

namespace Expr

/-- The identity and the position of the topmost node. -/
def node : Expr → Node
  | literal n _ | list n _ | reference n _ | parameter n _ | property n _ _ | unary n _ _
  | binary n _ _ _ | call n _ _ _ | countStar n | comprehension n _ _ _ _
  | quantified n _ _ _ _ => n

/-- The id of the topmost node. -/
def id (e : Expr) : NodeId := e.node.id

/-- The span of the topmost node. -/
def span (e : Expr) : Span := e.node.span

/-- The same expression with another topmost node. -/
def withNode (n : Node) : Expr → Expr
  | literal _ v => literal n v
  | list _ es => list n es
  | reference _ x => reference n x
  | parameter _ x => parameter n x
  | property _ m k => property n m k
  | unary _ op e => unary n op e
  | binary _ op l r => binary n op l r
  | call _ f d es => call n f d es
  | countStar _ => countStar n
  | comprehension _ b s p q => comprehension n b s p q
  | quantified _ k b s p => quantified n k b s p

/-- The same expression at another position. -/
def withSpan (e : Expr) (span : Span) : Expr := e.withNode { e.node with span }

/-- The direct subexpressions, from left to right. -/
def children : Expr → List Expr
  | literal .. | reference .. | parameter .. | countStar _ => []
  | list _ es => es
  | property _ m _ => [m]
  | unary _ _ e => [e]
  | binary _ _ l r => [l, r]
  | call _ _ _ es => es
  | comprehension _ _ s p q => s :: (p.toList ++ q.toList)
  | quantified _ _ _ s p => s :: p.toList

/-- The name that the topmost node binds. -/
def bound? : Expr → Option Binding
  | comprehension _ b _ _ _ | quantified _ _ b _ _ => some b
  | _ => none

/-- The ids of the topmost node and of its binding. -/
def ownIds (e : Expr) : List NodeId := e.id :: (e.bound?.map Binding.id).toList

/-- A child is smaller than its node. -/
theorem mem_children_lt {e c : Expr} (h : c ∈ e.children) : sizeOf c < sizeOf e := by
  cases e <;> simp only [children, List.not_mem_nil, List.mem_cons, or_false, List.mem_append,
    Option.mem_toList] at h
  case list n es =>
    have := List.sizeOf_lt_of_mem h
    simp only [list.sizeOf_spec]; omega
  case property => subst h; simp only [property.sizeOf_spec]; omega
  case unary => subst h; simp only [unary.sizeOf_spec]; omega
  case binary =>
    rcases h with rfl | rfl
    · simp only [binary.sizeOf_spec]; omega
    · simp only [binary.sizeOf_spec]; omega
  case call n f d es =>
    have := List.sizeOf_lt_of_mem h
    simp only [call.sizeOf_spec]; omega
  case comprehension => rcases h with rfl | rfl | rfl <;> simp <;> omega
  case quantified => rcases h with rfl | rfl <;> simp <;> omega

/-- **Induction over trees.**  What holds of a node whenever it holds of its children holds of
every expression. -/
theorem children_induction {motive : Expr → Prop}
    (node : ∀ e, (∀ c ∈ e.children, motive c) → motive e) (e : Expr) : motive e :=
  node e fun c hc =>
    have := mem_children_lt hc
    children_induction node c
termination_by sizeOf e

end Expr
end QueryTyping
