import QueryTyping.Expr.OfJson

/-!
# Building expressions

Trees that are built by hand rather than read: every node draws a fresh id and has no position.
-/

namespace QueryTyping.Expr

/-- A node with a fresh id and no position. -/
def made (make : Node → Expr) : Draw Expr := do
  return make ⟨← fresh, .unknown⟩

/-- A filter with fresh ids for itself and for its binding, and no position. -/
def madeFilter (name : String) (make : Node → Binding → Expr) : Draw Expr := do
  let id ← fresh
  return make ⟨id, .unknown⟩ ⟨← fresh, .unknown, name⟩

end QueryTyping.Expr
