import QueryTyping.Check.Basic
import QueryTyping.Proofs.State.Frame

/-!
# What a check sees of the scopes

Apart from the declaration and the resolution of names, no operation looks at the scopes.  So a check
that does neither runs in the same way whatever the scopes are, and passes them on.

Main statement: `run_inScopes` says so for every check that does not ask for names.
-/

namespace QueryTyping

namespace State

/-- The same state with other scopes. -/
def inScopes (s : State) (sc : Scopes) : State := { s with scopes := sc }

@[simp] theorem info_inScopes (s : State) (sc : Scopes) (i : NodeId) :
    (s.inScopes sc).info? i = s.info? i := rfl

@[simp] theorem types_inScopes (s : State) (sc : Scopes) (i : NodeId) :
    (s.inScopes sc).types i = s.types i := rfl

@[simp] theorem symbol_inScopes (s : State) (sc : Scopes) (x : String) :
    (s.inScopes sc).symbol? x = sc.find? x := rfl

@[simp] theorem inScopes_scopes (s : State) : s.inScopes s.scopes = s := rfl

end State

namespace Outcome

/-- The same outcome with other scopes. -/
def inScopes (o : Outcome) (sc : Scopes) : Outcome := ⟨o.state.inScopes sc, o.problems⟩

@[simp] theorem state_inScopes (o : Outcome) (sc : Scopes) :
    (o.inScopes sc).state = o.state.inScopes sc := rfl

theorem andThen_inScopes {o : Outcome} {f g : State → Outcome} {sc : Scopes}
    (h : f (o.state.inScopes sc) = (g o.state).inScopes sc) :
    (o.inScopes sc).andThen f = (o.andThen g).inScopes sc := by
  simp only [andThen, state_inScopes, h]
  rfl

end Outcome

namespace State

variable (s : State) (sc : Scopes)

theorem specify_inScopes (n : Node) (types : TypeSet) :
    (s.inScopes sc).specify n types = (s.specify n types).map (·.inScopes sc) := by
  unfold specify
  rw [info_inScopes]
  cases s.info? n.id with
  | none => rfl
  | some info =>
      dsimp only
      split <;> rfl

theorem ofExcept_inScopes (r : Except Problem State) :
    Outcome.ofExcept (s.inScopes sc) (r.map (·.inScopes sc)) =
      (Outcome.ofExcept s r).inScopes sc := by
  cases r <;> rfl

theorem expectTypes_inScopes (n : Node) (possible : TypeSet)
    (cause : TypeSet → TypeSet → Cause) :
    (s.inScopes sc).expectTypes n possible cause =
      (s.expectTypes n possible cause).inScopes sc := by
  have hexpect : (s.inScopes sc).expect n.id possible = (s.expect n.id possible).inScopes sc := rfl
  simp only [expectTypes, hexpect, types_inScopes]
  split <;> rfl

theorem narrow_inScopes (ns : List Node) (alive : List Signature) :
    narrow ns alive (s.inScopes sc) =
      ((narrow ns alive s).1.inScopes sc, (narrow ns alive s).2) := by
  induction ns generalizing alive s with
  | nil => rfl
  | cons n ns ih =>
      cases alive with
      | nil => rfl
      | cons g gs =>
          simp only [narrow, expectTypes_inScopes, Outcome.state_inScopes, types_inScopes, ih]
          rfl

theorem invoke_inScopes (n : Node) (args : List Node) (signatures : List Signature) :
    (s.inScopes sc).invoke n args signatures = (s.invoke n args signatures).inScopes sc := by
  simp only [invoke, narrow_inScopes]
  apply Outcome.andThen_inScopes
  rw [specify_inScopes]
  exact ofExcept_inScopes _ sc _

end State

namespace Check

/-- The check asks for no names and opens no scope. -/
def Nameless : Check → Prop
  | done | report _ | expect .. | invoke .. => True
  | specify _ types => ∀ s sc, types (State.inScopes s sc) = types s
  | andThen p q => p.Nameless ∧ q.Nameless
  | declare .. | resolve .. | inScope _ => False

/-- **A check that asks for no names does not see the scopes.** -/
theorem run_inScopes {p : Check} (h : p.Nameless) (s : State) (sc : Scopes) :
    p.run (s.inScopes sc) = (p.run s).inScopes sc := by
  induction p generalizing s with
  | done => rfl
  | report p => rfl
  | specify n types =>
      rw [run, h s sc, State.specify_inScopes]
      exact State.ofExcept_inScopes s sc _
  | expect n possible cause => exact State.expectTypes_inScopes s sc n possible cause
  | invoke n args signatures => exact State.invoke_inScopes s sc n args signatures
  | andThen p q ihp ihq =>
      rw [run, run, ihp h.1]
      exact Outcome.andThen_inScopes (ihq h.2 _)
  | declare b types => cases h
  | resolve x n => cases h
  | inScope p ih => cases h

end Check
end QueryTyping
