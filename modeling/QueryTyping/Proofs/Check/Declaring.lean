import QueryTyping.Proofs.Check.Frame

/-!
# Declarations stay in their scope

A check declares names in the innermost scope alone, and only names that this scope does not have
yet.  So the scope grows at its end: whatever happens in a run, and whatever is reported, a name
that was declared there keeps its symbol.  The scopes around it are not touched at all.

A check in a scope of its own declares there, and the scope is dropped at the end with everything in
it.  Nothing else is lost: what has been reported, and what is known about nodes and references, is
the same as without dropping the scope.

All this is true of any check, however its parts are nested, and so of the checks of expressions,
which are put together from such parts.

Main statements: `Scope.Grows.find` says that symbols are kept, `grows_run` that a run only adds to
the innermost scope, and `run_keeps_scopes` puts together what a run does to the scopes, with a
scope of its own and without.
-/

namespace QueryTyping

/-- Symbols have been added to the scope, of names that it did not have. -/
def Scope.Grows (scope later : Scope) : Prop :=
  ∃ added, later = scope ++ added ∧ ∀ symbol ∈ added, scope.find? symbol.name = none

namespace Scope.Grows

variable {scope later last : Scope}

theorem refl (scope : Scope) : scope.Grows scope := ⟨[], by simp⟩

theorem trans (h : scope.Grows later) (h' : later.Grows last) : scope.Grows last := by
  obtain ⟨added, rfl, hnew⟩ := h
  obtain ⟨added', rfl, hnew'⟩ := h'
  refine ⟨added ++ added', List.append_assoc .., fun symbol hsymbol => ?_⟩
  rcases List.mem_append.mp hsymbol with hsymbol | hsymbol
  · exact hnew symbol hsymbol
  · have hnone := hnew' symbol hsymbol
    rw [Scope.find?, List.find?_append, Option.or_eq_none_iff] at hnone
    exact hnone.1

theorem add {symbol : Symbol} (h : scope.find? symbol.name = none) :
    scope.Grows (scope ++ [symbol]) :=
  ⟨[symbol], rfl, fun _ hother => List.mem_singleton.mp hother ▸ h⟩

/-- **Symbols are kept.**  A name that was declared still has the same symbol. -/
theorem find (h : scope.Grows later) {x : String} {symbol : Symbol}
    (hfind : scope.find? x = some symbol) : later.find? x = some symbol := by
  obtain ⟨added, rfl, -⟩ := h
  rw [Scope.find?] at hfind ⊢
  rw [List.find?_append, hfind, Option.some_or]

end Scope.Grows

namespace State

variable {s t : State} {types : TypeSet}

/-- A declaration adds its name to the innermost scope. -/
theorem grows_declare {b : Binding} (h : s.declare b types = .ok t) :
    s.scopes.inner.Grows t.scopes.inner := by
  obtain ⟨middle, hnew, hspec, rfl⟩ := declare_cases h
  rw [← scopes_specify hspec] at hnew ⊢
  exact .add hnew

end State

namespace Check

open State

/-- **A run only adds to the innermost scope**, also when it fails somewhere. -/
theorem grows_run (p : Check) (s : State) :
    s.scopes.inner.Grows (p.run s).state.scopes.inner := by
  induction p generalizing s with
  | declare b types =>
      simp only [run]
      cases h : s.declare b (types s) with
      | error p => exact .refl _
      | ok t => exact grows_declare h
  | andThen p q ihp ihq => exact (ihp s).trans (ihq _)
  | _ =>
      -- nothing else declares a name outside of a scope of its own
      rw [run_scopes rfl]
      exact .refl _

/-- **Declarations stay in their scope.**  Whatever is reported, the run of a check leaves as many
scopes as there were, all but the innermost unchanged, and every name of the innermost one keeps its
symbol.  If the check runs in a scope of its own, all scopes are unchanged; it reports what it
reports inside, and what is known about nodes and references is what was found out inside. -/
theorem run_keeps_scopes (p : Check) (s : State) :
    let after := (p.run s).state
    let inside := p.run s.push
    let enclosed := (inScope p).run s
    (after.scopes.depth = s.scopes.depth ∧ after.scopes.outer = s.scopes.outer ∧
        ∀ x symbol, s.scopes.inner.find? x = some symbol →
          after.scopes.inner.find? x = some symbol) ∧
      enclosed.state.scopes = s.scopes ∧ enclosed.problems = inside.problems ∧
        ∀ i, enclosed.state.info? i = inside.state.info? i ∧
          enclosed.state.bindingOf? i = inside.state.bindingOf? i := by
  intro after inside enclosed
  have houter : after.scopes.outer = s.scopes.outer := run_outer p s
  refine ⟨⟨?_, houter, fun x symbol => (grows_run p s).find⟩, ?_, rfl, fun i => ?_⟩
  · rw [Scopes.depth, houter, Scopes.depth]
  · exact run_inScope_scopes (run_outer p s.push)
  · exact ⟨info_pop inside.state i, bindingOf_pop inside.state i⟩

/-- A name is declared twice, the second time in vain, and again in a scope of its own. -/
example :
    let x (i : NodeId) : Binding := ⟨i, .unknown, "x"⟩
    let p : Check := .all
      [.declare (x 1) fun _ => .all, .declare (x 2) fun _ => .all,
        .inScope (.declare (x 3) fun _ => .all)]
    let after := p.run .initial
    (after.state.symbol? "x").map Symbol.binding = some 1 ∧ after.problems.length = 1 ∧
      (after.state.info? 3).isSome = true := by
  decide

end Check
end QueryTyping
