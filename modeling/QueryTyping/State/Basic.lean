import QueryTyping.State.Table
import QueryTyping.State.Scope
import QueryTyping.Diagnostic.Problem

/-!
# States of an analysis

What has been learned so far about one query: the types of each node, the names in scope, and the
binding each reference resolved to.  For a node two sets are kept, what the node itself was found
to be and what its place accepts; its actual types are what is in both.

Every successful operation gives a new state and counts one revision.  An operation that fails
leaves the state as it was.

Main statements: `types_eq_all` says that a node nothing is known about may be anything, and
`revision_expect`, `revision_push` and `revision_pop` count revisions.
-/

namespace QueryTyping

/-- What is known about one node. -/
structure TypeInfo where
  specified : TypeSet
  expected : Option TypeSet
  deriving DecidableEq

namespace TypeInfo

/-- The types the node itself has, as far as its place accepts them. -/
def actual (info : TypeInfo) : TypeSet :=
  match info.expected with
  | some expected => info.specified.inter expected
  | none => info.specified

/-- The node stands where only `possible` is accepted. -/
def narrow (info : TypeInfo) (possible : TypeSet) : TypeInfo :=
  { info with expected := some (match info.expected with
      | some earlier => earlier.inter possible
      | none => possible) }

end TypeInfo

/-- What has been learned about a query. -/
structure State where
  infos : Table NodeId TypeInfo
  scopes : Scopes
  references : Table NodeId NodeId
  revision : Nat

namespace State

/-- Nothing is known and no name is declared. -/
def initial : State := ⟨.empty, .root, .empty, 0⟩

instance : Inhabited State := ⟨initial⟩

/-- What is known about a node. -/
def info? (s : State) (id : NodeId) : Option TypeInfo := s.infos.get? id

/-- The actual types of a node.  A node nothing is known about may be anything. -/
def types (s : State) (id : NodeId) : TypeSet :=
  match s.info? id with
  | some info => info.actual
  | none => .all

/-- One revision later. -/
def next (s : State) : State := { s with revision := s.revision + 1 }

/-- The node has one of the given types.  What was known before is narrowed; if nothing is left,
the two conflict. -/
def specify (s : State) (n : Node) (possible : TypeSet) : Except Problem State :=
  match s.info? n.id with
  | some info =>
      let narrowed := info.specified.inter possible
      if narrowed.isEmpty then
        .error ⟨.conflict possible info.specified, n.span⟩
      else
        .ok { s with infos := s.infos.set n.id { info with specified := narrowed } }.next
  | none => .ok { s with infos := s.infos.set n.id ⟨possible, none⟩ }.next

/-- The place of the node accepts only the given types. -/
def expect (s : State) (id : NodeId) (possible : TypeSet) : State :=
  let info := (s.info? id).getD ⟨.all, none⟩
  { s with infos := s.infos.set id (info.narrow possible) }.next

/-- The innermost declaration of a name. -/
def symbol? (s : State) (name : String) : Option Symbol := s.scopes.find? name

/-- Declare a name in the innermost scope. -/
def declare (s : State) (b : Binding) (types : TypeSet) : Except Problem State :=
  match s.scopes.inner.find? b.name with
  | some earlier => .error ⟨.alreadyDeclared b.name earlier.definition, b.span⟩
  | none => do
      let s ← s.specify b.node types
      return { s with scopes := s.scopes.add ⟨b.name, types, b.id, b.span⟩ }

/-- Resolve a reference to the innermost declaration of its name, whose types it then has. -/
def resolve (s : State) (name : String) (n : Node) : Except Problem State :=
  match s.symbol? name with
  | some symbol => do
      let s ← s.specify n symbol.types
      return { s with references := s.references.set n.id symbol.binding }
  | none => .error ⟨.undefined name, n.span⟩

/-- The binding that a reference resolved to. -/
def bindingOf? (s : State) (reference : NodeId) : Option NodeId := s.references.get? reference

/-- Open a scope. -/
def push (s : State) : State := { s with scopes := s.scopes.push }.next

/-- Close the innermost scope, unless it is the root. -/
def pop (s : State) : State := { s with scopes := s.scopes.pop }.next

/-- The declarations of the root scope, by name. -/
def roots (s : State) : List Symbol :=
  s.scopes.rootScope.mergeSort fun a b => decide (a.name ≤ b.name)

theorem types_eq_all {s : State} {id : NodeId} (h : s.info? id = none) : s.types id = .all := by
  simp [types, h]

theorem revision_expect (s : State) (id : NodeId) (possible : TypeSet) :
    (s.expect id possible).revision = s.revision + 1 := rfl

theorem revision_push (s : State) : s.push.revision = s.revision + 1 := rfl

theorem revision_pop (s : State) : s.pop.revision = s.revision + 1 := rfl

end State
end QueryTyping
