import QueryTyping.Expr.Basic
import QueryTyping.TypeSet.Basic

/-!
# Scopes

Names are declared in scopes that nest.  There is always a scope, the root, which is never closed.
A name means its declaration in the innermost scope that has one.

Main statements: `find_push`, `pop_push` and `find_add` say what opening, closing and declaring do
to the meaning of names.
-/

namespace QueryTyping

/-- A declared name. -/
structure Symbol where
  name : String
  types : TypeSet
  binding : NodeId
  definition : Span

/-- The names declared at one level, in the order of their declaration. -/
abbrev Scope := List Symbol

/-- The declaration of a name in a scope. -/
def Scope.find? (scope : Scope) (name : String) : Option Symbol :=
  List.find? (·.name == name) scope

/-- The scopes around a place, the innermost apart. -/
structure Scopes where
  inner : Scope
  outer : List Scope

namespace Scopes

/-- An empty root scope. -/
def root : Scopes := ⟨[], []⟩

instance : Inhabited Scopes := ⟨root⟩

/-- All scopes from the innermost to the root. -/
def toList (s : Scopes) : List Scope := s.inner :: s.outer

/-- The number of scopes. -/
def depth (s : Scopes) : Nat := s.outer.length + 1

/-- Open a scope. -/
def push (s : Scopes) : Scopes := ⟨[], s.inner :: s.outer⟩

/-- Close the innermost scope, unless it is the root. -/
def pop (s : Scopes) : Scopes :=
  match s.outer with
  | [] => s
  | scope :: rest => ⟨scope, rest⟩

/-- Declare a name in the innermost scope. -/
def add (s : Scopes) (symbol : Symbol) : Scopes := { s with inner := s.inner ++ [symbol] }

/-- The innermost declaration of a name. -/
def find? (s : Scopes) (name : String) : Option Symbol :=
  s.toList.findSome? (·.find? name)

/-- The declarations of the root scope. -/
def rootScope (s : Scopes) : Scope := s.outer.getLast?.getD s.inner

@[simp] theorem pop_push (s : Scopes) : s.push.pop = s := rfl

@[simp] theorem depth_push (s : Scopes) : s.push.depth = s.depth + 1 := rfl

@[simp] theorem find_push (s : Scopes) (name : String) : s.push.find? name = s.find? name := rfl

@[simp] theorem depth_add (s : Scopes) (symbol : Symbol) : (s.add symbol).depth = s.depth := rfl

/-- A declaration gives its name a meaning, if the innermost scope had none for it. -/
theorem find_add {s : Scopes} {symbol : Symbol} (h : s.inner.find? symbol.name = none)
    (name : String) :
    (s.add symbol).find? name = if name = symbol.name then some symbol else s.find? name := by
  obtain ⟨inner, outer⟩ := s
  unfold find? toList add
  rw [List.findSome?_cons, List.findSome?_cons]
  by_cases hn : name = symbol.name
  · subst hn
    simp only [Scope.find?] at h ⊢
    simp [List.find?_append, h]
  · have : symbol.name ≠ name := fun e => hn e.symm
    simp [Scope.find?, List.find?_append, this, hn]

end Scopes
end QueryTyping
