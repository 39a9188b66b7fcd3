import QueryTyping.Expr.Fold
import QueryTyping.Expr.Reads
import QueryTyping.Expr.OfJson
import QueryTyping.Typing

/-!
# Analyses

The analysis of an expression runs its check on the state in which the surroundings are declared.

Main statement: `types_analyze` says what the analysis reports as types of a node.
-/

namespace QueryTyping

/-- The outcome of analysing an expression. -/
structure Analysis where
  root : Expr
  state : State
  problems : List Problem

namespace State

/-- Declare names with fresh bindings that have no position.  The first declaration that fails
ends this. -/
def declareAll (s : State) : List (String × TypeSet) → Draw (Except Problem State)
  | [] => pure (.ok s)
  | (name, types) :: rest => do
      match s.declare { id := ← fresh, span := .unknown, name } types with
      | .ok s => s.declareAll rest
      | .error p => return .error p

/-- Analyse an expression in a context. -/
def analyze (s : State) (ctx : Context) (e : Expr) : Analysis :=
  let o := (e.check ctx).run s
  ⟨e, o.state, o.problems⟩

end State

namespace Analysis

/-- No problem was found. -/
def wellTyped (a : Analysis) : Bool := a.problems.isEmpty

/-- The types of a node. -/
def types (a : Analysis) (e : Expr) : TypeSet := a.state.types e.id

/-- The types of the whole expression. -/
def rootTypes (a : Analysis) : TypeSet := a.types a.root

/-- The types of all nodes, by id. -/
def typesBelow (a : Analysis) : List (NodeId × TypeSet) :=
  a.root.nodes.map fun e => (e.id, a.types e)

/-- The names read from the surroundings. -/
def dependencies (a : Analysis) : NameSet := a.root.dependencies

theorem types_analyze (s : State) (ctx : Context) (e d : Expr) :
    (s.analyze ctx e).types d = ((e.check ctx).run s).state.types d.id := rfl

end Analysis
end QueryTyping
