import Mathlib.Data.List.Forall2
import QueryTyping.Check.Basic

/-!
# What a check reports in every state

A check holds reports that it makes in every state, in the order in which they stand in it.
Everything else that it reports is found out from the state, and has to do with types or names.  So
the problems of form among those that a run finds are the same in every state.

A check can be made milder by leaving out reports of aggregations.  A report changes no state, so
the milder check comes to the same state and finds the other problems in the same order.

Main statements: `run_formal` says which problems of form a run finds, and `Milder.run` compares the
runs of a check and of a milder one.
-/

namespace QueryTyping

/-- The codes of the problems of form. -/
def Code.formal : List Code :=
  [.unknownFunction, .argumentCount, .invalidAggregation, .invalidDistinct, .missingPredicate]

namespace Problem

/-- The code of the problem is one of the codes for problems of form. -/
def isFormal (p : Problem) : Bool := Code.formal.any fun c => c.text == p.code

/-- The problem is an aggregation where none is allowed. -/
def isAggregation (p : Problem) : Bool := p.code == Code.invalidAggregation.text

/-- The problem is an impossible number of arguments. -/
def isArgumentCount (p : Problem) : Bool := p.code == Code.argumentCount.text

/-- A problem with the code of a kind is one of form if the kind is listed as such. -/
theorem isFormal_of_code {p : Problem} {c : Code} (h : (p.code == c.text) = true)
    (hc : c ∈ Code.formal) : p.isFormal = true := by
  have heq : c.text = p.code := (beq_iff_eq.mp h).symm
  exact List.any_eq_true.mpr ⟨c, hc, beq_iff_eq.mpr heq⟩

/-- A problem with the code of a kind that is not listed is none of form. -/
theorem not_isFormal_of_code {p : Problem} {c : Code} (h : p.code = c.text)
    (hc : c ∉ Code.formal) : p.isFormal = false := by
  rw [isFormal, List.any_eq_false]
  intro d hd heq
  have hsame : d = c := Code.text_injective ((beq_iff_eq.mp heq).trans h)
  exact hc (hsame ▸ hd)

/-- A problem of form has none of the codes that are not listed. -/
theorem code_ne_of_isFormal {p : Problem} (h : p.isFormal = true) {c : Code}
    (hc : c ∉ Code.formal) : p.code ≠ c.text := by
  intro heq
  rw [not_isFormal_of_code heq hc] at h
  cases h

theorem isFormal_mismatch (a b : TypeSet) (span : Span) :
    isFormal ⟨.mismatch a b, span⟩ = false :=
  not_isFormal_of_code (c := .typeMismatch) rfl (by decide)

theorem isFormal_noMap (a : TypeSet) (span : Span) : isFormal ⟨.noMap a, span⟩ = false :=
  not_isFormal_of_code (c := .typeMismatch) rfl (by decide)

end Problem

/-! Operations on a state report no problem of form -/

namespace State

variable {s : State} {n : Node} {types : TypeSet} {p : Problem}

theorem isFormal_specify (h : s.specify n types = .error p) : p.isFormal = false := by
  unfold specify at h
  split at h
  · dsimp only at h
    split at h
    · cases h
      exact Problem.not_isFormal_of_code (c := .conflictingTypes) rfl (by decide)
    · cases h
  · cases h

theorem isFormal_declare {b : Binding} (h : s.declare b types = .error p) :
    p.isFormal = false := by
  unfold declare at h
  split at h
  · cases h
    exact Problem.not_isFormal_of_code (c := .alreadyDeclared) rfl (by decide)
  · cases hspecify : s.specify b.node types with
    | error q =>
        rw [hspecify] at h
        cases h
        exact isFormal_specify hspecify
    | ok t => rw [hspecify] at h; cases h

theorem isFormal_resolve {x : String} (h : s.resolve x n = .error p) : p.isFormal = false := by
  unfold resolve at h
  split at h
  · rename_i symbol hsymbol
    cases hspecify : s.specify n symbol.types with
    | error q =>
        rw [hspecify] at h
        cases h
        exact isFormal_specify hspecify
    | ok t => rw [hspecify] at h; cases h
  · cases h
    exact Problem.not_isFormal_of_code (c := .undefinedVariable) rfl (by decide)

theorem formal_ofExcept {r : Except Problem State}
    (h : ∀ p, r = .error p → p.isFormal = false) :
    (Outcome.ofExcept s r).problems.filter Problem.isFormal = [] := by
  cases r with
  | ok t => rfl
  | error p =>
      have hp := h p rfl
      simp [Outcome.ofExcept, hp]

theorem formal_expectTypes {possible : TypeSet} {cause : TypeSet → TypeSet → Cause}
    (h : ∀ a b, Problem.isFormal ⟨cause a b, n.span⟩ = false) :
    (s.expectTypes n possible cause).problems.filter Problem.isFormal = [] := by
  unfold expectTypes
  dsimp only
  split
  · simp [h]
  · rfl

theorem formal_narrow (ns : List Node) (alive : List Signature) (s : State) :
    (narrow ns alive s).1.problems.filter Problem.isFormal = [] := by
  induction ns generalizing alive s with
  | nil => rfl
  | cons n ns ih =>
      cases alive with
      | nil => rfl
      | cons g gs =>
          have hfirst : ∀ possible,
              (s.expectTypes n possible .mismatch).problems.filter Problem.isFormal = [] :=
            fun possible => formal_expectTypes fun a b => Problem.isFormal_mismatch a b n.span
          simp only [narrow, List.filter_append, hfirst, List.nil_append]
          exact ih _ _

theorem formal_invoke (n : Node) (args : List Node) (gs : List Signature) (s : State) :
    (s.invoke n args gs).problems.filter Problem.isFormal = [] := by
  have hnarrow := formal_narrow args (gs.filter (·.arity == args.length)) s
  have hlast : ∀ (t : State) (types : TypeSet),
      (Outcome.ofExcept t (t.specify n types)).problems.filter Problem.isFormal = [] :=
    fun t types => formal_ofExcept fun p hp => isFormal_specify hp
  simp only [invoke, Outcome.andThen, List.filter_append, hnarrow, hlast, List.append_nil]

end State

namespace Check

/-- The reports that a check makes in every state. -/
def reports : Check → List Problem
  | report p => [p]
  | andThen p q => p.reports ++ q.reports
  | inScope p => p.reports
  | done | specify .. | expect .. | declare .. | resolve .. | invoke .. => []

/-- No expectation of the check is reported as a problem of form. -/
def ExpectsTypes : Check → Prop
  | expect n _ cause => ∀ a b, Problem.isFormal ⟨cause a b, n.span⟩ = false
  | andThen p q => p.ExpectsTypes ∧ q.ExpectsTypes
  | inScope p => p.ExpectsTypes
  | done | report _ | specify .. | declare .. | resolve .. | invoke .. => True

@[simp] theorem reports_all (ps : List Check) : (all ps).reports = ps.flatMap reports := by
  induction ps with
  | nil => rfl
  | cons p ps ih => simp [all, reports, ih]

@[simp] theorem expectsTypes_all (ps : List Check) :
    (all ps).ExpectsTypes ↔ ∀ p ∈ ps, p.ExpectsTypes := by
  induction ps with
  | nil => simp [all, ExpectsTypes]
  | cons p ps ih => simp [all, ExpectsTypes, ih]

theorem expectsTypes_when (condition : Bool) {p : Check} (h : p.ExpectsTypes) :
    (when condition p).ExpectsTypes := by
  cases condition with
  | true => exact h
  | false => trivial

/-- **Problems of form do not depend on the state.**  The problems of form that a run finds are
those among the reports that the check makes in every state. -/
theorem run_formal {p : Check} (h : p.ExpectsTypes) (s : State) :
    (p.run s).problems.filter Problem.isFormal = p.reports.filter Problem.isFormal := by
  induction p generalizing s with
  | done => rfl
  | report p => rfl
  | specify n types => exact State.formal_ofExcept fun p hp => State.isFormal_specify hp
  | expect n possible cause => exact State.formal_expectTypes h
  | declare b types => exact State.formal_ofExcept fun p hp => State.isFormal_declare hp
  | resolve x n => exact State.formal_ofExcept fun p hp => State.isFormal_resolve hp
  | invoke n args gs => exact State.formal_invoke n args gs s
  | andThen p q ihp ihq =>
      have hp := ihp h.1 s
      have hq := ihq h.2 (p.run s).state
      simp only [run, Outcome.andThen, reports, List.filter_append, hp, hq]
  | inScope p ih => exact ih h s.push

/-- The second check is the first one without some of its reports of aggregations. -/
inductive Milder : Check → Check → Prop
  | same (p : Check) : Milder p p
  | left_out {p : Problem} (h : p.isAggregation = true) : Milder (report p) done
  | andThen {p p' q q' : Check} (hp : Milder p p') (hq : Milder q q') :
      Milder (andThen p q) (andThen p' q')
  | inScope {p p' : Check} (hp : Milder p p') : Milder (inScope p) (inScope p')

theorem Milder.all {ps qs : List Check} (h : List.Forall₂ Milder ps qs) :
    Milder (all ps) (all qs) := by
  induction h with
  | nil => exact .same _
  | cons hp _ ih => exact .andThen hp ih

theorem Milder.when {c c' : Bool} {p : Problem} (hp : p.isAggregation = true)
    (h : c' = true → c = true) :
    Milder (when c (report p)) (when c' (report p)) := by
  cases c' with
  | true =>
      rw [h rfl]
      exact .same _
  | false =>
      cases c with
      | true => exact .left_out hp
      | false => exact .same _

/-- **A milder check comes to the same state.**  It finds the same problems, except that some
aggregations are left out. -/
theorem Milder.run {p q : Check} (h : Milder p q) (s : State) :
    (q.run s).state = (p.run s).state ∧
      (q.run s).problems.Sublist (p.run s).problems ∧
      (q.run s).problems.filter (!·.isAggregation) =
        (p.run s).problems.filter (!·.isAggregation) := by
  induction h generalizing s with
  | same p => exact ⟨rfl, List.Sublist.refl _, rfl⟩
  | @left_out p hp =>
      refine ⟨rfl, List.nil_sublist _, ?_⟩
      simp [Check.run, hp]
  | @andThen p p' q q' _ _ ihp ihq =>
      obtain ⟨hstate, hsub, hrest⟩ := ihp s
      obtain ⟨hstate', hsub', hrest'⟩ := ihq (p.run s).state
      simp only [Check.run, Outcome.andThen, hstate, List.filter_append, hrest, hrest']
      exact ⟨hstate', hsub.append hsub', trivial⟩
  | @inScope p p' _ ih =>
      obtain ⟨hstate, hsub, hrest⟩ := ih s.push
      exact ⟨congrArg State.pop hstate, hsub, hrest⟩

end Check
end QueryTyping
