import QueryTyping.Proofs.Typing.Stages

/-!
# Remarks on form

A node reports an unknown function, arguments too few or too many, an aggregation or a distinct where
it is not allowed, and a predicate that is missing, whatever the types of its children are.  All these
are problems of form, so they have other codes than what is found out about types and names.

Main statements: `AllFormal.filter_eq_nil` keeps these codes apart from the others, and
`allFormal_callRules` says that the rules of calls report problems of form only.
-/

namespace QueryTyping

/-- All the problems are of form. -/
def AllFormal (ps : List Problem) : Prop := ∀ p ∈ ps, p.isFormal = true

variable {ps qs : List Problem}

/-- **Remarks on the form have codes of their own.** -/
theorem AllFormal.filter_eq_nil (h : AllFormal ps) {c : Code} (hc : c ∉ Code.formal) :
    (ps.filter fun p => p.code == c.text) = [] := by
  rw [List.filter_eq_nil_iff]
  intro p hp heq
  exact Problem.code_ne_of_isFormal (h p hp) hc (beq_iff_eq.mp heq)

theorem allFormal_nil : AllFormal [] := fun _ hp => nomatch hp

theorem allFormal_singleton {p : Problem} (h : p.isFormal = true) : AllFormal [p] := by
  intro q hq
  obtain rfl := List.mem_singleton.mp hq
  exact h

theorem allFormal_append (hp : AllFormal ps) (hq : AllFormal qs) : AllFormal (ps ++ qs) := by
  intro p hmem
  rcases List.mem_append.mp hmem with hmem | hmem
  · exact hp p hmem
  · exact hq p hmem

theorem allFormal_missing (k : Quantifier) (predicate : Option Expr) (span : Span) :
    AllFormal (if predicate.isNone then [⟨.missingPredicate k, span⟩] else []) := by
  split
  · exact allFormal_singleton rfl
  · exact allFormal_nil

namespace Check

theorem allFormal_when (condition : Bool) {p : Check} (h : AllFormal p.reports) :
    AllFormal (when condition p).reports := by
  cases condition with
  | true => exact h
  | false => exact allFormal_nil

theorem allFormal_aggregation (n : Node) (invocation : String) (ctx : Context) :
    AllFormal (aggregation n invocation ctx).reports :=
  allFormal_when _ (allFormal_singleton rfl)

theorem allFormal_argumentCount (n : Node) (f : Function) (count : Nat) :
    AllFormal (argumentCount n f count).reports := by
  unfold argumentCount
  split
  · exact allFormal_singleton rfl
  · split
    · exact allFormal_singleton rfl
    · exact allFormal_nil

/-- **The rules of calls are about the form of a call.** -/
theorem allFormal_callRules (n : Node) (f : Function) (distinct : Bool) (count : Nat)
    (ctx : Context) : AllFormal (callRules n f distinct count ctx).reports := by
  rw [callRules, reports_all]
  intro p hp
  obtain ⟨rule, hrule, hp⟩ := List.mem_flatMap.mp hp
  simp only [List.mem_cons, List.not_mem_nil, or_false] at hrule
  rcases hrule with rfl | rfl | rfl
  · exact allFormal_when _ (allFormal_aggregation n _ ctx) p hp
  · have hdistinct : AllFormal (report ⟨.distinct f.name, n.span⟩).reports := allFormal_singleton rfl
    exact allFormal_when _ hdistinct p hp
  · exact allFormal_argumentCount n f count p hp

end Check
end QueryTyping
