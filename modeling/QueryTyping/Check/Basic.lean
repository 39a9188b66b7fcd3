import QueryTyping.Check.Overload

/-!
# Checks

A check is a small program over states, kept as data.  Running it gives a new state and the
problems it found.  Checks that follow one another all run, whatever is reported; problems are
gathered in order.

Main statements: `run_all_cons` and `run_all_append` say how a list of checks runs, and
`run_inScope_scopes` that a scope that was opened is closed again.
-/

namespace QueryTyping

/-- A program that checks something. -/
inductive Check where
  | done
  | report (problem : Problem)
  | specify (node : Node) (types : State → TypeSet)
  | expect (node : Node) (possible : TypeSet) (cause : TypeSet → TypeSet → Cause)
  | declare (binding : Binding) (types : State → TypeSet)
  | resolve (name : String) (reference : Node)
  | invoke (invocation : Node) (arguments : List Node) (signatures : List Signature)
  | andThen (first second : Check)
  | inScope (body : Check)

namespace Check

/-- Run a check. -/
def run : Check → State → Outcome
  | done, s => ⟨s, []⟩
  | report p, s => ⟨s, [p]⟩
  | specify n types, s => .ofExcept s (s.specify n (types s))
  | expect n possible cause, s => s.expectTypes n possible cause
  | declare b types, s => .ofExcept s (s.declare b (types s))
  | resolve x n, s => .ofExcept s (s.resolve x n)
  | invoke n args signatures, s => s.invoke n args signatures
  | andThen p q, s => (p.run s).andThen q.run
  | inScope p, s =>
      let o := p.run s.push
      { o with state := o.state.pop }

/-- The check, if the condition holds. -/
def when (condition : Bool) (p : Check) : Check := if condition then p else done

/-- Run checks one after the other. -/
def all : List Check → Check
  | [] => done
  | p :: ps => andThen p (all ps)

/-- The node has the given types. -/
def fixed (n : Node) (types : TypeSet) : Check := specify n fun _ => types

theorem run_all_nil (s : State) : (all []).run s = ⟨s, []⟩ := rfl

theorem run_all_cons (p : Check) (ps : List Check) (s : State) :
    (all (p :: ps)).run s = (p.run s).andThen (all ps).run := rfl

theorem run_all_append (ps qs : List Check) (s : State) :
    (all (ps ++ qs)).run s = ((all ps).run s).andThen (all qs).run := by
  induction ps generalizing s with
  | nil => simp [all, run, Outcome.andThen]
  | cons p ps ih =>
      rw [List.cons_append, run_all_cons, run_all_cons]
      simp [Outcome.andThen, ih]

/-- After a body that opens and closes its own scopes evenly, the scopes are as before. -/
theorem run_inScope_scopes {p : Check} {s : State}
    (h : (p.run s.push).state.scopes.outer = s.push.scopes.outer) :
    ((inScope p).run s).state.scopes = s.scopes := by
  have hpop : ((inScope p).run s).state.scopes = (p.run s.push).state.scopes.pop := rfl
  rw [hpop, Scopes.pop, h]
  rfl

end Check
end QueryTyping
