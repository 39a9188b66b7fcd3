import QueryTyping.State.Basic

/-!
# Overloads

Operators and functions have several signatures.  An invocation is resolved by narrowing the
signatures with the right number of parameters, argument by argument: the argument is expected to
have one of the types that the remaining signatures accept, and signatures whose parameter cannot
hold what is left of the argument's types are dropped.  The invocation has the outputs of all
signatures that remain; if none remains it may have any type.

Main statements: `narrow_nil` says that no argument is looked at when no signature remains, and
`expectTypes_problems` when an expectation is reported.
-/

namespace QueryTyping

/-- The state after a check, and the problems it found, in order. -/
structure Outcome where
  state : State
  problems : List Problem

namespace Outcome

/-- The outcome of an operation on a state.  If it fails, the state stays. -/
def ofExcept (s : State) : Except Problem State → Outcome
  | .ok after => ⟨after, []⟩
  | .error p => ⟨s, [p]⟩

/-- Go on from the state of an outcome; earlier problems come first. -/
def andThen (o : Outcome) (next : State → Outcome) : Outcome :=
  let o' := next o.state
  ⟨o'.state, o.problems ++ o'.problems⟩

end Outcome

/-- One way to invoke an operator or a function. -/
structure Signature where
  parameters : List Ty
  output : TypeSet
  deriving DecidableEq

namespace Signature

/-- The number of arguments. -/
def arity (g : Signature) : Nat := g.parameters.length

/-- What the first parameter accepts: its type and the subtypes. -/
def accepted (g : Signature) : TypeSet :=
  match g.parameters with
  | t :: _ => .covariant t
  | [] => .empty

/-- The signature without its first parameter. -/
def rest (g : Signature) : Signature := { g with parameters := g.parameters.tail }

/-- The written form. -/
def text (g : Signature) : String :=
  "(" ++ ", ".intercalate (g.parameters.map Ty.name) ++ ") -> " ++ g.output.text

end Signature

namespace State

/-- Expect a node to have one of the given types.  It is reported, with what the node was known to
be, if nothing is left of it. -/
def expectTypes (s : State) (n : Node) (possible : TypeSet)
    (cause : TypeSet → TypeSet → Cause) : Outcome :=
  let after := s.expect n.id possible
  if (after.types n.id).isEmpty then ⟨after, [⟨cause possible (s.types n.id), n.span⟩]⟩
  else ⟨after, []⟩

/-- Narrow signatures argument by argument; those that remain. -/
def narrow : List Node → List Signature → State → Outcome × List Signature
  | [], alive, s => (⟨s, []⟩, alive)
  | _ :: _, [], s => (⟨s, []⟩, [])
  | n :: ns, g :: gs, s =>
      let alive := g :: gs
      let o := s.expectTypes n (.unions (alive.map Signature.accepted)) .mismatch
      let left := (alive.filter fun g => (o.state.types n.id).meets g.accepted).map Signature.rest
      let (o', final) := narrow ns left o.state
      (⟨o'.state, o.problems ++ o'.problems⟩, final)

/-- The types of an invocation when these signatures remain. -/
def outputs (alive : List Signature) : TypeSet :=
  if alive.isEmpty then .all else .unions (alive.map Signature.output)

/-- Resolve an invocation against its signatures. -/
def invoke (s : State) (invocation : Node) (arguments : List Node)
    (signatures : List Signature) : Outcome :=
  let (o, alive) := narrow arguments (signatures.filter (·.arity == arguments.length)) s
  o.andThen fun s => .ofExcept s (s.specify invocation (outputs alive))

/-- When no signature remains, no argument is looked at. -/
theorem narrow_nil (ns : List Node) (s : State) : narrow ns [] s = (⟨s, []⟩, []) := by
  cases ns <;> rfl

/-- An expectation is reported exactly when it leaves the node without types. -/
theorem expectTypes_problems {s : State} {n : Node} {possible : TypeSet}
    {cause : TypeSet → TypeSet → Cause} :
    (s.expectTypes n possible cause).problems = [] ↔
      ((s.expect n.id possible).types n.id).isEmpty = false := by
  unfold expectTypes
  cases h : ((s.expect n.id possible).types n.id).isEmpty <;> simp [h]

end State
end QueryTyping
