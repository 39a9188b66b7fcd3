/-!
# Contexts

Where an expression stands.  Aggregating functions combine the values of many results and are
allowed only where results are projected.

Main statement: `ofName_name` says that a written context is read back.
-/

namespace QueryTyping

/-- The place an expression stands in. -/
inductive Context where
  | simple
  | results
  deriving DecidableEq, Repr

namespace Context

instance : Inhabited Context := ⟨simple⟩

/-- The written form of a context. -/
def name : Context → String
  | simple => "simple"
  | results => "results"

/-- The context of this name. -/
def ofName? (name : String) : Option Context := [simple, results].find? (·.name == name)

theorem ofName_name (c : Context) : ofName? c.name = some c := by
  cases c <;> decide

end Context
end QueryTyping
