import QueryTyping.Check.Basic
import QueryTyping.Proofs.State.Frame

/-!
# What a check leaves alone

Three lists of ids are read off a check without running it: those it may specify, those it may
expect something of, and those whose reference it may record.  Whatever it reports, a run of the
check changes nothing else.  Scopes are opened and closed evenly, so a check that declares nothing
outside of a scope of its own gives back the scopes that it was given.

Main statements: `run_info` and `run_bindingOf` are the frames of a run, `run_keepsSpecified` says
that an expectation alone keeps what is specified, and `run_scopes` that scopes are given back.
-/

namespace QueryTyping.Check

open State

/-- The ids that a check may specify. -/
def specified : Check → List NodeId
  | done | report _ | expect .. => []
  | specify n _ => [n.id]
  | declare b _ => [b.id]
  | resolve _ n => [n.id]
  | invoke n _ _ => [n.id]
  | andThen p q => p.specified ++ q.specified
  | inScope p => p.specified

/-- The ids that a check may expect something of. -/
def expected : Check → List NodeId
  | done | report _ | specify .. | declare .. | resolve .. => []
  | expect n _ _ => [n.id]
  | invoke _ args _ => args.map Node.id
  | andThen p q => p.expected ++ q.expected
  | inScope p => p.expected

/-- The ids whose reference a check may record. -/
def resolved : Check → List NodeId
  | done | report _ | specify .. | expect .. | declare .. | invoke .. => []
  | resolve _ n => [n.id]
  | andThen p q => p.resolved ++ q.resolved
  | inScope p => p.resolved

/-- Nothing is declared outside of a scope that the check itself opens. -/
def closed : Check → Bool
  | declare .. => false
  | andThen p q => p.closed && q.closed
  | done | report _ | specify .. | expect .. | resolve .. | invoke .. | inScope _ => true

@[simp] theorem specified_all (ps : List Check) : (all ps).specified = ps.flatMap specified := by
  induction ps with
  | nil => rfl
  | cons p ps ih => simp [all, specified, ih]

@[simp] theorem expected_all (ps : List Check) : (all ps).expected = ps.flatMap expected := by
  induction ps with
  | nil => rfl
  | cons p ps ih => simp [all, expected, ih]

@[simp] theorem resolved_all (ps : List Check) : (all ps).resolved = ps.flatMap resolved := by
  induction ps with
  | nil => rfl
  | cons p ps ih => simp [all, resolved, ih]

@[simp] theorem closed_all (ps : List Check) : (all ps).closed = ps.all closed := by
  induction ps with
  | nil => rfl
  | cons p ps ih => simp [all, closed, ih]

/-- The state after an invocation is the one after narrowing, or it differs in the specification
of the invocation. -/
theorem invoke_cases (s : State) (n : Node) (args : List Node) (gs : List Signature) :
    ∃ middle alive, narrow args (gs.filter (·.arity == args.length)) s = (middle, alive) ∧
      ((s.invoke n args gs).state = middle.state ∨
        middle.state.specify n (outputs alive) = .ok (s.invoke n args gs).state) := by
  refine ⟨_, _, rfl, ?_⟩
  simp only [State.invoke, Outcome.andThen]
  cases h : (narrow args (gs.filter (·.arity == args.length)) s).1.state.specify n
      (outputs (narrow args (gs.filter (·.arity == args.length)) s).2) with
  | error p => exact Or.inl rfl
  | ok t => exact Or.inr rfl

/-- **The frame of a run.**  What is known about a node stays if the check neither specifies it nor
expects anything of it. -/
theorem run_info {p : Check} {i : NodeId} (hs : i ∉ p.specified) (he : i ∉ p.expected)
    (s : State) : (p.run s).state.info? i = s.info? i := by
  induction p generalizing s with
  | done => rfl
  | report p => rfl
  | specify n types =>
      have hn : i ≠ n.id := by simpa [specified] using hs
      simp only [run]
      cases h : s.specify n (types s) with
      | error p => rfl
      | ok t => exact info_specify_frame h hn
  | expect n possible cause =>
      have hn : i ≠ n.id := by simpa [expected] using he
      simp [run, hn]
  | declare b types =>
      have hb : i ≠ b.id := by simpa [specified] using hs
      simp only [run]
      cases h : s.declare b (types s) with
      | error p => rfl
      | ok t => exact info_declare_frame h hb
  | resolve x n =>
      have hn : i ≠ n.id := by simpa [specified] using hs
      simp only [run]
      cases h : s.resolve x n with
      | error p => rfl
      | ok t => exact info_resolve_frame h hn
  | invoke n args gs =>
      have hn : i ≠ n.id := by simpa [specified] using hs
      have hargs : ∀ m ∈ args, i ≠ m.id := by
        intro m hm hi
        exact he (by simp only [expected]; exact List.mem_map.mpr ⟨m, hm, hi.symm⟩)
      obtain ⟨middle, alive, hnarrow, hlast⟩ := invoke_cases s n args gs
      have hmiddle : middle.state.info? i = s.info? i := by
        have h := info_narrow_frame hargs (gs.filter (·.arity == args.length)) s
        rwa [hnarrow] at h
      rcases hlast with hlast | hlast
      · rw [run, hlast, hmiddle]
      · rw [run, info_specify_frame hlast hn, hmiddle]
  | andThen p q ihp ihq =>
      simp only [specified, expected, List.mem_append, not_or] at hs he
      calc ((andThen p q).run s).state.info? i
          = (p.run s).state.info? i := ihq hs.2 he.2 _
        _ = s.info? i := ihp hs.1 he.1 _
  | inScope p ih => exact (ih hs he s.push).trans (info_push s i)

/-- A check that does not specify a node keeps what is specified about it. -/
theorem run_keepsSpecified {p : Check} {i : NodeId} (hs : i ∉ p.specified) (s : State) :
    s.KeepsSpecified (p.run s).state i := by
  induction p generalizing s with
  | expect n possible cause =>
      simp only [run, state_expectTypes]
      exact keepsSpecified_expect s n.id i possible
  | invoke n args gs =>
      have hn : i ≠ n.id := by simpa [specified] using hs
      obtain ⟨middle, alive, hnarrow, hlast⟩ := invoke_cases s n args gs
      have hmiddle : s.KeepsSpecified middle.state i := by
        have h := keepsSpecified_narrow args (gs.filter (·.arity == args.length)) s i
        rwa [hnarrow] at h
      rcases hlast with hlast | hlast
      · rw [run, hlast]; exact hmiddle
      · exact hmiddle.trans (.of_info_eq (info_specify_frame hlast hn))
  | andThen p q ihp ihq =>
      simp only [specified, List.mem_append, not_or] at hs
      exact (ihp hs.1 s).trans (ihq hs.2 _)
  | inScope p ih => exact ih hs s.push
  | _ => exact .of_info_eq (run_info hs (by simp [expected]) s)

/-- The reference of a node stays if the check does not resolve it. -/
theorem run_bindingOf {p : Check} {i : NodeId} (h : i ∉ p.resolved) (s : State) :
    (p.run s).state.bindingOf? i = s.bindingOf? i := by
  induction p generalizing s with
  | done => rfl
  | report p => rfl
  | specify n types =>
      simp only [run]
      cases hspec : s.specify n (types s) with
      | error p => rfl
      | ok t => exact congrArg (·.get? i) (references_specify hspec)
  | expect n possible cause =>
      simp only [run, state_expectTypes]
      rfl
  | declare b types =>
      simp only [run]
      cases hdecl : s.declare b (types s) with
      | error p => rfl
      | ok t => exact congrArg (·.get? i) (references_declare hdecl)
  | resolve x n =>
      have hn : i ≠ n.id := by simpa [resolved] using h
      simp only [run]
      cases hres : s.resolve x n with
      | error p => rfl
      | ok t => exact bindingOf_resolve_frame hres hn
  | invoke n args gs =>
      obtain ⟨middle, alive, hnarrow, hlast⟩ := invoke_cases s n args gs
      have hmiddle : middle.state.references = s.references := by
        have h := references_narrow args (gs.filter (·.arity == args.length)) s
        rwa [hnarrow] at h
      have hrun : (s.invoke n args gs).state.references = s.references := by
        rcases hlast with hlast | hlast
        · rw [hlast, hmiddle]
        · rw [references_specify hlast, hmiddle]
      exact congrArg (·.get? i) hrun
  | andThen p q ihp ihq =>
      simp only [resolved, List.mem_append, not_or] at h
      exact (ihq h.2 _).trans (ihp h.1 s)
  | inScope p ih => exact (ih h s.push).trans (bindingOf_push s i)

/-- An invocation has nothing to do with scopes. -/
theorem scopes_invoke (s : State) (n : Node) (args : List Node) (gs : List Signature) :
    (s.invoke n args gs).state.scopes = s.scopes := by
  obtain ⟨middle, alive, hnarrow, hlast⟩ := invoke_cases s n args gs
  have hmiddle : middle.state.scopes = s.scopes := by
    have h := scopes_narrow args (gs.filter (·.arity == args.length)) s
    rwa [hnarrow] at h
  rcases hlast with hlast | hlast
  · rw [hlast, hmiddle]
  · rw [scopes_specify hlast, hmiddle]

/-- **Scopes are even.**  A run of any check leaves all scopes but the innermost as they were, also
when it fails somewhere. -/
theorem run_outer (p : Check) (s : State) : (p.run s).state.scopes.outer = s.scopes.outer := by
  induction p generalizing s with
  | done => rfl
  | report p => rfl
  | specify n types =>
      simp only [run]
      cases h : s.specify n (types s) with
      | error p => rfl
      | ok t => exact congrArg Scopes.outer (scopes_specify h)
  | expect n possible cause =>
      simp only [run, state_expectTypes]
      rfl
  | declare b types =>
      simp only [run]
      cases h : s.declare b (types s) with
      | error p => rfl
      | ok t => exact outer_declare h
  | resolve x n =>
      simp only [run]
      cases h : s.resolve x n with
      | error p => rfl
      | ok t => exact congrArg Scopes.outer (scopes_resolve h)
  | invoke n args gs => exact congrArg Scopes.outer (scopes_invoke s n args gs)
  | andThen p q ihp ihq => exact (ihq _).trans (ihp s)
  | inScope p ih => exact congrArg Scopes.outer (run_inScope_scopes (ih s.push))

/-- A closed check gives back the scopes that it was given. -/
theorem run_scopes {p : Check} (h : p.closed = true) (s : State) :
    (p.run s).state.scopes = s.scopes := by
  induction p generalizing s with
  | done => rfl
  | report p => rfl
  | specify n types =>
      simp only [run]
      cases hspec : s.specify n (types s) with
      | error p => rfl
      | ok t => exact scopes_specify hspec
  | expect n possible cause =>
      simp only [run, state_expectTypes]
      rfl
  | declare b types => cases h
  | resolve x n =>
      simp only [run]
      cases hres : s.resolve x n with
      | error p => rfl
      | ok t => exact scopes_resolve hres
  | invoke n args gs => exact scopes_invoke s n args gs
  | andThen p q ihp ihq =>
      simp only [closed, Bool.and_eq_true] at h
      exact (ihq h.2 _).trans (ihp h.1 s)
  | inScope p ih => exact run_inScope_scopes (run_outer p s.push)

/-- After a closed check each name means what it meant before. -/
theorem run_symbol {p : Check} (h : p.closed = true) (s : State) (x : String) :
    (p.run s).state.symbol? x = s.symbol? x := by
  rw [symbol?, run_scopes h, symbol?]

end QueryTyping.Check
