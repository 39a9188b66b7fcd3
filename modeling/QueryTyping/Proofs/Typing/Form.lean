import QueryTyping.Proofs.Check.Reports
import QueryTyping.Proofs.Typing.Stages

/-!
# The form of an expression

Whether a call names a known function, how many arguments it has, and whether an aggregation may
stand where it stands can be seen on the tree alone.  What a check reports about this depends neither
on the state nor on the ids of the tree.

A position is a node with the context in which it stands.  The context of the whole tree is handed
down to the children, except that the arguments of an aggregation, and the predicate and the
projection of a filter, always stand in a simple context.

Main statements: `filter_reports` gathers the reports of one code from the positions of a tree,
`Function.any_arity_iff` says when a number of arguments is possible, `milder_check` that the context
makes a difference to the reports of aggregations only, and `form_check` what follows for runs.
-/

namespace QueryTyping

/-- A node with the context in which it stands. -/
structure Position where
  expr : Expr
  context : Context

mutual

/-- The positions of a tree that stands in a context, a node before its children. -/
def Expr.positions : Expr → Context → List Position
  | .literal n v, ctx => [⟨.literal n v, ctx⟩]
  | .reference n x, ctx => [⟨.reference n x, ctx⟩]
  | .parameter n x, ctx => [⟨.parameter n x, ctx⟩]
  | .countStar n, ctx => [⟨.countStar n, ctx⟩]
  | .list n es, ctx => ⟨.list n es, ctx⟩ :: positionsAll es ctx
  | .property n m k, ctx => ⟨.property n m k, ctx⟩ :: m.positions ctx
  | .unary n op e, ctx => ⟨.unary n op e, ctx⟩ :: e.positions ctx
  | .binary n op l r, ctx => ⟨.binary n op l r, ctx⟩ :: (l.positions ctx ++ r.positions ctx)
  | .call n f d es, ctx =>
      ⟨.call n f d es, ctx⟩ ::
        match Function.lookup? f with
        | some g => positionsAll es (if g.aggregate then .simple else ctx)
        | none => positionsAll es ctx
  | .comprehension n b s p q, ctx =>
      ⟨.comprehension n b s p q, ctx⟩ ::
        (s.positions ctx ++ (positionsOption p .simple ++ positionsOption q .simple))
  | .quantified n k b s p, ctx =>
      ⟨.quantified n k b s p, ctx⟩ :: (s.positions ctx ++ positionsOption p .simple)

/-- The positions of trees, one after the other. -/
def positionsAll : List Expr → Context → List Position
  | [], _ => []
  | e :: es, ctx => e.positions ctx ++ positionsAll es ctx

/-- The positions of a tree that may be missing. -/
def positionsOption : Option Expr → Context → List Position
  | none, _ => []
  | some e, ctx => e.positions ctx

end

theorem positionsAll_eq (es : List Expr) (ctx : Context) :
    positionsAll es ctx = es.flatMap (·.positions ctx) := by
  induction es with
  | nil => rw [positionsAll, List.flatMap_nil]
  | cons e es ih => rw [positionsAll, ih, List.flatMap_cons]

theorem positionsOption_eq (p : Option Expr) (ctx : Context) :
    positionsOption p ctx = p.toList.flatMap (·.positions ctx) := by
  cases p <;> simp [positionsOption]

/-- How a node that aggregates is written. -/
def Expr.aggregation? : Expr → Option String
  | .countStar _ => some "count(*)"
  | .call _ name _ _ =>
      match Function.lookup? name with
      | some f => if f.aggregate then some (f.name ++ "(...)") else none
      | none => none
  | _ => none

/-- The problem with an aggregation that stands in a simple context. -/
def Position.misplaced? (p : Position) : Option Problem :=
  if p.context = .simple then
    p.expr.aggregation?.map fun invocation => ⟨.aggregation invocation, p.expr.span⟩
  else none

/-- The problem with a call of a known function that has no signature for so many arguments. -/
def Expr.miscounted? : Expr → Option Problem
  | .call n name _ es =>
      match Function.lookup? name with
      | some f =>
          if f.signatures.any (·.arity == es.length) then none
          else if es.length < f.minArity then some ⟨.tooFewArguments f.name, n.span⟩
          else some ⟨.tooManyArguments f.name, n.span⟩
      | none => none
  | _ => none

namespace Function

/-- The arities of a function have no gap. -/
theorem arity_between {name : String} {f : Function} (h : lookup? name = some f) {count : Nat}
    (hmin : f.minArity ≤ count) (hmax : count ≤ f.maxArity) :
    f.signatures.any (·.arity == count) = true := by
  have key : ∀ f ∈ catalog.map (·.2), ∀ count ≤ f.maxArity, f.minArity ≤ count →
      f.signatures.any (·.arity == count) = true := by decide
  exact key f (mem_catalog_of_lookup h) count hmax hmin

/-- The arity of each signature lies between the least and the largest. -/
theorem arity_mem_range {f : Function} {g : Signature} (hg : g ∈ f.signatures) :
    f.minArity ≤ g.arity ∧ g.arity ≤ f.maxArity := by
  have harity : g.arity ∈ f.signatures.map Signature.arity := List.mem_map_of_mem hg
  constructor
  · exact List.min?_getD_le_of_mem harity
  · exact List.le_max?_getD_of_mem harity

/-- A function can be called with a number of arguments if the number is neither too small nor too
large. -/
theorem any_arity_iff {name : String} {f : Function} (h : lookup? name = some f) {count : Nat} :
    f.signatures.any (·.arity == count) = true ↔ f.minArity ≤ count ∧ count ≤ f.maxArity := by
  constructor
  · intro hany
    obtain ⟨g, hg, harity⟩ := List.any_eq_true.mp hany
    obtain rfl := beq_iff_eq.mp harity
    exact arity_mem_range hg
  · intro hrange
    exact arity_between h hrange.1 hrange.2

end Function

namespace Expr

/-- **The positions of a tree.** -/
theorem positions_eq (e : Expr) (ctx : Context) :
    e.positions ctx =
      ⟨e, ctx⟩ ::
        (e.outside.flatMap (·.positions (e.childContext ctx)) ++
          e.within.flatMap (·.positions .simple)) := by
  cases e with
  | call n name distinct es =>
      rw [positions]
      simp only [outside, within, children, childContext, List.flatMap_nil, List.append_nil]
      cases Function.lookup? name with
      | none => rw [positionsAll_eq]
      | some f => simp only [Function.argumentContext, positionsAll_eq]
  | _ =>
      rw [positions]
      simp [outside, within, children, childContext, positionsAll_eq, positionsOption_eq]

/-- Every node has one position, and the positions stand in the order of the nodes. -/
theorem map_expr_positions (e : Expr) (ctx : Context) :
    (e.positions ctx).map Position.expr = e.nodes := by
  induction e using children_induction generalizing ctx with
  | node e ih =>
      have hout : ∀ c ∈ e.outside, (c.positions (e.childContext ctx)).map Position.expr = c.nodes :=
        fun c hc => ih c (mem_children_of_outside hc) _
      have hin : ∀ c ∈ e.within, (c.positions .simple).map Position.expr = c.nodes :=
        fun c hc => ih c (mem_children_of_within hc) _
      rw [positions_eq, nodes_eq, children_eq]
      simp [List.map_flatMap, List.flatMap_congr hout, List.flatMap_congr hin]

/-- What a check reports in every state, from the root down. -/
theorem reports_check (e : Expr) (ctx : Context) :
    (e.check ctx).reports =
      (e.opening ctx).reports ++
        (e.outside.flatMap (fun c => (c.check (e.childContext ctx)).reports) ++
          e.within.flatMap fun c => (c.check .simple).reports) ++
        e.closing.reports := by
  cases e with
  | call n name distinct es =>
      simp only [check, opening, closing, childContext, outside, within, children]
      cases Function.lookup? name <;> simp [checkAll_eq, Check.reports, Check.fixed, List.flatMap_map]
  | comprehension n b s p q =>
      cases p <;> cases q <;>
        simp [check, opening, closing, childContext, outside, within, checkPredicate, checkProjection,
          Check.reports]
  | quantified n k b s p =>
      cases p <;>
        simp [check, opening, closing, childContext, outside, within, checkPredicate, Check.reports,
          Check.fixed, Check.when]
  | _ =>
      simp [check, opening, closing, childContext, outside, within, children, checkAll_eq,
        Check.reports, Check.fixed, List.flatMap_map]

/-- **The reports of a kind that is never reported after the children** are those that stand at the
positions of the tree, in order. -/
theorem filter_reports {kind : Problem → Bool}
    (hclosing : ∀ e : Expr, e.closing.reports.filter kind = []) (e : Expr) (ctx : Context) :
    (e.check ctx).reports.filter kind =
      (e.positions ctx).flatMap fun p => (p.expr.opening p.context).reports.filter kind := by
  induction e using children_induction generalizing ctx with
  | node e ih =>
      have hout : ∀ c ∈ e.outside, (c.check (e.childContext ctx)).reports.filter kind = _ :=
        fun c hc => ih c (mem_children_of_outside hc) _
      have hin : ∀ c ∈ e.within, (c.check .simple).reports.filter kind = _ :=
        fun c hc => ih c (mem_children_of_within hc) _
      rw [reports_check, positions_eq]
      simp only [List.filter_append, List.filter_flatMap, hclosing, List.append_nil,
        List.flatMap_congr hout, List.flatMap_congr hin, List.flatMap_cons, List.flatMap_append,
        List.flatMap_assoc]

/-! Which problems of form there are, code by code -/

/-- After its children, a node reports at most that a function is unknown or that a predicate is
missing. -/
theorem filter_closing {kind : Problem → Bool}
    (hunknown : ∀ name span, kind ⟨.unknownFunction name, span⟩ = false)
    (hmissing : ∀ k span, kind ⟨.missingPredicate k, span⟩ = false) (e : Expr) :
    e.closing.reports.filter kind = [] := by
  cases e with
  | call n name distinct es =>
      rw [closing]
      cases Function.lookup? name with
      | none => simp [Check.reports, Check.fixed, hunknown]
      | some f => rfl
  | quantified n k b s p =>
      cases p with
      | none => simp [closing, Check.reports, Check.fixed, Check.when, hmissing]
      | some c => rfl
  | _ => rfl

/-- A call that asks for distinct arguments without aggregating them is a problem of its own kind. -/
theorem filter_distinct (kind : Problem → Bool)
    (hkind : ∀ name span, kind ⟨.distinct name, span⟩ = false) (distinct : Bool) (name : String)
    (span : Span) :
    (Check.when distinct (.report ⟨.distinct name, span⟩)).reports.filter kind = [] := by
  cases distinct with
  | true => simp [Check.when, Check.reports, hkind]
  | false => rfl

/-- A number of arguments is reported if no signature of the function has so many parameters. -/
theorem reports_argumentCount {name : String} {f : Function} (hf : Function.lookup? name = some f)
    (n : Node) (count : Nat) :
    (Check.argumentCount n f count).reports =
      (if f.signatures.any (·.arity == count) then none
        else if count < f.minArity then some ⟨.tooFewArguments f.name, n.span⟩
        else some ⟨.tooManyArguments f.name, n.span⟩ : Option Problem).toList := by
  have hrange : f.signatures.any (·.arity == count) = true ↔
      f.minArity ≤ count ∧ count ≤ f.maxArity := Function.any_arity_iff hf
  unfold Check.argumentCount
  by_cases hfew : count < f.minArity
  · have hnone : ¬ f.signatures.any (·.arity == count) = true := by
      intro hany
      have := (hrange.mp hany).1
      omega
    rw [if_pos hfew, if_neg hnone, if_pos hfew]
    rfl
  · rw [if_neg hfew]
    by_cases hmany : f.maxArity < count
    · have hnone : ¬ f.signatures.any (·.arity == count) = true := by
        intro hany
        have := (hrange.mp hany).2
        omega
      rw [if_pos hmany, if_neg hnone, if_neg hfew]
      rfl
    · have hsome : f.signatures.any (·.arity == count) = true :=
        hrange.mpr ⟨by omega, by omega⟩
      rw [if_neg hmany, if_pos hsome]
      rfl

/-- The opening of a node reports an aggregation that stands in a simple context. -/
theorem aggregation_opening (e : Expr) (ctx : Context) :
    (e.opening ctx).reports.filter Problem.isAggregation =
      (Position.misplaced? ⟨e, ctx⟩).toList := by
  cases e with
  | countStar n => cases ctx <;> rfl
  | call n name distinct es =>
      simp only [opening, Position.misplaced?, aggregation?]
      cases Function.lookup? name with
      | none => cases ctx <;> rfl
      | some f =>
          have hcount : (Check.argumentCount n f es.length).reports.filter
              Problem.isAggregation = [] := by
            unfold Check.argumentCount
            split
            · rfl
            · split <;> rfl
          have hdistinct := filter_distinct Problem.isAggregation (fun _ _ => rfl)
            (distinct && !f.aggregate) f.name n.span
          dsimp only
          simp only [Check.callRules, Check.reports_all, List.flatMap_cons, List.flatMap_nil,
            List.append_nil, List.filter_append, hcount, hdistinct]
          cases f.aggregate <;> cases ctx <;> rfl
  | _ => cases ctx <;> rfl

/-- The opening of a node reports a call with an impossible number of arguments. -/
theorem argumentCount_opening (e : Expr) (ctx : Context) :
    (e.opening ctx).reports.filter Problem.isArgumentCount = e.miscounted?.toList := by
  cases e with
  | countStar n => cases ctx <;> rfl
  | call n name distinct es =>
      simp only [opening, miscounted?]
      cases hf : Function.lookup? name with
      | none => rfl
      | some f =>
          have haggregation : (Check.when f.aggregate
              (.aggregation n (f.name ++ "(...)") ctx)).reports.filter
                Problem.isArgumentCount = [] := by
            cases f.aggregate <;> cases ctx <;> rfl
          have hdistinct := filter_distinct Problem.isArgumentCount (fun _ _ => rfl)
            (distinct && !f.aggregate) f.name n.span
          have hcount := reports_argumentCount hf n es.length
          dsimp only
          simp only [Check.callRules, Check.reports_all, List.flatMap_cons, List.flatMap_nil,
            List.append_nil, List.filter_append, haggregation, hdistinct, List.nil_append, hcount]
          split
          · rfl
          · split <;> rfl
  | _ => rfl

theorem milder_aggregation (n : Node) (invocation : String) :
    Check.Milder (.aggregation n invocation .simple) (.aggregation n invocation .results) :=
  .when rfl (by simp)

/-- The context makes a difference to the reports of aggregations only. -/
theorem milder_check (e : Expr) : Check.Milder (e.check .simple) (e.check .results) := by
  induction e using children_induction with
  | node e ih =>
      have hall : ∀ es : List Expr, (∀ c ∈ es, c ∈ e.children) →
          Check.Milder (checkAll es .simple) (checkAll es .results) := by
        intro es hes
        rw [checkAll_eq, checkAll_eq]
        apply Check.Milder.all
        rw [List.forall₂_map_left_iff, List.forall₂_map_right_iff, List.forall₂_same]
        exact fun c hc => ih c (hes c hc)
      have hchild : ∀ c ∈ e.children, ∀ ps,
          Check.Milder (.all (c.check .simple :: ps)) (.all (c.check .results :: ps)) := by
        intro c hc ps
        exact .andThen (ih c hc) (.same _)
      cases e with
      | countStar n =>
          rw [check, check]
          exact .andThen (milder_aggregation n _) (.same _)
      | list n es =>
          rw [check, check]
          exact .andThen (hall es fun _ h => h) (.same _)
      | property n m k => rw [check, check]; exact hchild m (by simp [children]) _
      | unary n op e => rw [check, check]; exact hchild e (by simp [children]) _
      | binary n op l r =>
          rw [check, check]
          exact .andThen (ih l (by simp [children])) (hchild r (by simp [children]) _)
      | call n name distinct es =>
          rw [check, check]
          cases Function.lookup? name with
          | none => exact .andThen (hall es fun _ h => h) (.same _)
          | some f =>
              have hargs : Check.Milder (checkAll es (f.argumentContext .simple))
                  (checkAll es (f.argumentContext .results)) := by
                unfold Function.argumentContext
                cases f.aggregate with
                | true => exact .same _
                | false => exact hall es fun _ h => h
              have haggregation : Check.Milder
                  (.when f.aggregate (.aggregation n (f.name ++ "(...)") .simple))
                  (.when f.aggregate (.aggregation n (f.name ++ "(...)") .results)) := by
                cases f.aggregate with
                | true => exact milder_aggregation n _
                | false => exact .same _
              exact .andThen (.andThen haggregation (.same _)) (.andThen hargs (.same _))
      | comprehension n b s p q => rw [check, check]; exact hchild s (by simp [children]) _
      | quantified n k b s p => rw [check, check]; exact hchild s (by simp [children]) _
      | _ => rw [check, check]; exact .same _

/-- What only reports expects nothing. -/
theorem expectsTypes_of_silent {p : Check} (h : p.silent = true) : p.ExpectsTypes := by
  induction p with
  | done => trivial
  | report p => trivial
  | andThen p q ihp ihq =>
      simp only [Check.silent, Bool.and_eq_true] at h
      exact ⟨ihp h.1, ihq h.2⟩
  | _ => cases h

/-- No expectation of a check is reported as a problem of form. -/
theorem expectsTypes_check (e : Expr) (ctx : Context) : (e.check ctx).ExpectsTypes := by
  induction e using children_induction generalizing ctx with
  | node e ih =>
      have hall : ∀ es : List Expr, (∀ c ∈ es, c ∈ e.children) → ∀ ctx,
          (checkAll es ctx).ExpectsTypes := by
        intro es hes ctx
        rw [checkAll_eq, Check.expectsTypes_all]
        intro p hp
        obtain ⟨c, hc, rfl⟩ := List.mem_map.mp hp
        exact ih c (hes c hc) ctx
      have hchild : ∀ c ∈ e.children, (c.check ctx).ExpectsTypes := fun c hc => ih c hc ctx
      have hpredicate : ∀ p : Option Expr, (∀ c ∈ p.toList, c ∈ e.children) →
          (checkPredicate p).ExpectsTypes := by
        intro p hp
        cases p with
        | none => simp [checkPredicate, Check.ExpectsTypes]
        | some c =>
            have hc := ih c (hp c (by simp)) .simple
            simp [checkPredicate, Check.ExpectsTypes, hc, Problem.isFormal_mismatch]
      have hprojection : ∀ q : Option Expr, (∀ c ∈ q.toList, c ∈ e.children) →
          (checkProjection q).ExpectsTypes := by
        intro q hq
        cases q with
        | none => simp [checkProjection, Check.ExpectsTypes]
        | some c => simpa [checkProjection] using ih c (hq c (by simp)) .simple
      have hopening := expectsTypes_of_silent (silent_opening e ctx)
      cases e with
      | countStar n =>
          simpa [check, opening, Check.fixed, Check.ExpectsTypes] using hopening
      | list n es =>
          simpa [check, Check.ExpectsTypes] using hall es (fun _ h => h) ctx
      | property n m k =>
          have hm := hchild m (by simp [children])
          simpa [check, Check.fixed, Check.ExpectsTypes, Problem.isFormal_noMap] using hm
      | unary n op e => simpa [check, Check.ExpectsTypes] using hchild e (by simp [children])
      | binary n op l r =>
          have hl := hchild l (by simp [children])
          have hr := hchild r (by simp [children])
          simp [check, Check.ExpectsTypes, hl, hr]
      | call n name distinct es =>
          rw [opening] at hopening
          rw [check]
          cases hf : Function.lookup? name with
          | none => simpa [Check.fixed, Check.ExpectsTypes] using hall es (fun _ h => h) ctx
          | some f =>
              rw [hf] at hopening
              have hargs := hall es (fun _ h => h) (f.argumentContext ctx)
              simpa [Check.ExpectsTypes, hargs] using hopening
      | comprehension n b s p q =>
          have hs := hchild s (by simp [children])
          have hp := hpredicate p fun c hc => by simp [children, Option.mem_toList.mp hc]
          have hq := hprojection q fun c hc => by simp [children, Option.mem_toList.mp hc]
          simp [check, Check.ExpectsTypes, hs, hp, hq, Problem.isFormal_mismatch]
      | quantified n k b s p =>
          have hs := hchild s (by simp [children])
          have hp := hpredicate p fun c hc => by simp [children, Option.mem_toList.mp hc]
          have hmissing := Check.expectsTypes_when p.isNone
            (p := .report ⟨.missingPredicate k, n.span⟩) trivial
          simp [check, Check.fixed, Check.ExpectsTypes, hs, hp, hmissing, Problem.isFormal_mismatch]
      | _ => simp [check, Check.fixed, Check.ExpectsTypes]

/-- **The form of an expression.**  What a check reports about the form of an expression is the same
in every state.  An aggregation is reported for each node that aggregates in a simple context, in the
order of the nodes, and a number of arguments for each call of a known function that has no
signature with so many parameters.  The context makes no difference to the state, and in results only
some of the aggregations are left out. -/
theorem form_check (e : Expr) (ctx : Context) (s s' : State) :
    let problems := fun ctx s => ((e.check ctx).run s).problems
    (problems ctx s).filter Problem.isFormal = (problems ctx s').filter Problem.isFormal ∧
      (problems ctx s).filter Problem.isAggregation =
        (e.positions ctx).filterMap Position.misplaced? ∧
      (problems ctx s).filter Problem.isArgumentCount = e.nodes.filterMap miscounted? ∧
      ((e.check .results).run s).state = ((e.check .simple).run s).state ∧
      (problems .results s).Sublist (problems .simple s) ∧
      (problems .results s).filter (!·.isAggregation) =
        (problems .simple s).filter (!·.isAggregation) := by
  intro problems
  have hformal : ∀ s, (problems ctx s).filter Problem.isFormal =
      (e.check ctx).reports.filter Problem.isFormal := Check.run_formal (expectsTypes_check e ctx)
  have hkind : ∀ {kind : Problem → Bool}, (∀ p, kind p = true → p.isFormal = true) →
      (problems ctx s).filter kind = (e.check ctx).reports.filter kind := by
    intro kind hkind
    have hlisted : ∀ ps : List Problem, ps.filter kind = (ps.filter Problem.isFormal).filter kind := by
      intro ps
      rw [List.filter_filter]
      exact List.filter_congr fun p _ => by cases hp : kind p <;> simp [hp, hkind]
    rw [hlisted, hformal, ← hlisted]
  obtain ⟨hstate, hsub, hrest⟩ := (milder_check e).run s
  have haggregation : (problems ctx s).filter Problem.isAggregation = _ :=
    hkind fun p hp => Problem.isFormal_of_code (c := .invalidAggregation) hp (by decide)
  have hcount : (problems ctx s).filter Problem.isArgumentCount = _ :=
    hkind fun p hp => Problem.isFormal_of_code (c := .argumentCount) hp (by decide)
  refine ⟨(hformal s).trans (hformal s').symm, ?_, ?_, hstate, hsub, hrest⟩
  · have hclosing : ∀ e : Expr, e.closing.reports.filter Problem.isAggregation = [] :=
      filter_closing (fun _ _ => rfl) fun _ _ => rfl
    rw [haggregation, filter_reports hclosing, List.filterMap_eq_flatMap_toList]
    exact List.flatMap_congr fun p _ => aggregation_opening p.expr p.context
  · have hclosing : ∀ e : Expr, e.closing.reports.filter Problem.isArgumentCount = [] :=
      filter_closing (fun _ _ => rfl) fun _ _ => rfl
    rw [hcount, filter_reports hclosing, ← map_expr_positions e ctx,
      List.filterMap_eq_flatMap_toList, List.flatMap_map]
    exact List.flatMap_congr fun p _ => argumentCount_opening p.expr p.context

end Expr
end QueryTyping
