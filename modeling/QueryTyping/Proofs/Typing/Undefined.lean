import QueryTyping.Proofs.Typing.Judge
import QueryTyping.Proofs.Typing.Remarks

/-!
# Undefined names

A check reports a name as undefined once for each free reference to it, in the order of the text, if
the name is not visible where the check starts.  Nothing else is reported under that code.

Main statements: `undefined_judge` says this of verdicts, and `undefined_check` of checks: the names
that a check reports are the names that the expression reads and nobody has declared.
-/

namespace QueryTyping

/-- The problem reports an undefined name. -/
def Problem.isUndefined (p : Problem) : Bool := p.code == Code.undefinedVariable.text

/-- The report of a reference to nothing. -/
def undefinedReference (r : Node × String) : Problem := ⟨.undefined r.2, r.1.span⟩

namespace Verdict

theorem undefined_blame {v : Verdict} {possible : TypeSet} {cause : TypeSet → TypeSet → Cause}
    (h : ∀ a b, (cause a b).code ≠ Code.undefinedVariable.text) :
    (v.blame possible cause).filter Problem.isUndefined = [] := by
  unfold blame
  split
  · simp [Problem.isUndefined, Problem.code, h]
  · rfl

theorem mismatch_code (a b : TypeSet) : (Cause.mismatch a b).code ≠ Code.undefinedVariable.text :=
  by simp only [Cause.code]; decide

theorem noMap_code (a : TypeSet) : (Cause.noMap a).code ≠ Code.undefinedVariable.text := by
  simp only [Cause.code]; decide

/-- Narrowing reports only types that do not fit. -/
theorem undefined_narrow (vs : List Verdict) (alive : List Signature) :
    (narrow vs alive).problems.filter Problem.isUndefined = [] := by
  induction vs generalizing alive with
  | nil => rfl
  | cons v vs ih =>
      cases alive with
      | nil => rfl
      | cons g gs =>
          simp only [narrow, List.filter_append, undefined_blame mismatch_code, List.nil_append]
          exact ih _

theorem undefined_expecting {v : Verdict} {possible : TypeSet}
    {cause : TypeSet → TypeSet → Cause} (h : ∀ a b, (cause a b).code ≠ Code.undefinedVariable.text) :
    (v.expecting possible cause).problems.filter Problem.isUndefined =
      v.problems.filter Problem.isUndefined := by
  simp only [expecting, report, expect, List.filter_append, undefined_blame h, List.append_nil]

end Verdict

/-- Remarks on the form have nothing to do with names. -/
theorem undefined_of_allFormal {ps : List Problem} (h : AllFormal ps) :
    ps.filter Problem.isUndefined = [] :=
  h.filter_eq_nil (c := .undefinedVariable) (by decide)

theorem undefined_aggregation (n : Node) (invocation : String) (ctx : Context) :
    (Check.aggregation n invocation ctx).reports.filter Problem.isUndefined = [] :=
  undefined_of_allFormal (Check.allFormal_aggregation n invocation ctx)

/-- The rules of calls have nothing to do with names. -/
theorem undefined_callRules (n : Node) (f : Function) (distinct : Bool) (count : Nat)
    (ctx : Context) :
    (Check.callRules n f distinct count ctx).reports.filter Problem.isUndefined = [] :=
  undefined_of_allFormal (Check.allFormal_callRules n f distinct count ctx)

namespace Verdict

variable {n : Node} {remarks : List Problem} {vs : List Verdict}

theorem undefined_above {types : TypeSet} (h : remarks.filter Problem.isUndefined = []) :
    (above n remarks vs types).problems.filter Problem.isUndefined =
      vs.flatMap fun v => v.problems.filter Problem.isUndefined := by
  rw [above, List.filter_append, h, List.nil_append, List.filter_flatMap]

theorem undefined_invocation {signatures : List Signature}
    (h : remarks.filter Problem.isUndefined = []) :
    (invocation n remarks vs signatures).problems.filter Problem.isUndefined =
      vs.flatMap fun v => v.problems.filter Problem.isUndefined := by
  simp only [invocation, List.filter_append, h, undefined_narrow, List.nil_append, List.append_nil,
    List.filter_flatMap]

theorem undefined_filter {source : Verdict} {predicate projection : Option Verdict}
    {types : TypeSet} :
    (filter n source predicate projection types).problems.filter Problem.isUndefined =
      (source :: (predicate.toList ++ projection.toList)).flatMap fun v =>
        v.problems.filter Problem.isUndefined := by
  rw [filter, List.filter_flatMap]

end Verdict

namespace Expr

/-- The reports of the free references to names that the assignment leaves undefined. -/
def undefinedIn (e : Expr) (env : Env) : List Problem :=
  (e.freeReferences.filter fun r => (env r.2).isNone).map undefinedReference

/-- What is undefined in a node that is neither a filter nor a reference. -/
theorem undefinedIn_of_filter_none {e : Expr} (h : e.filter? = none)
    (href : ∀ n x, e ≠ reference n x) (env : Env) :
    e.undefinedIn env = e.children.flatMap (·.undefinedIn env) := by
  have hroot : Place.freeReference? ⟨e, []⟩ = none := by
    cases e with
    | reference n x => exact absurd rfl (href n x)
    | _ => rfl
  rw [undefinedIn, freeReferences_eq, hroot, children_eq, within_of_filter_none h]
  simp [List.filter_flatMap, List.map_flatMap, undefinedIn]

/-- What is undefined in a filter: in its binding, its name is defined. -/
theorem undefinedIn_of_filter {e : Expr} {f : Filter} (h : e.filter? = some f) (env : Env)
    (types : TypeSet) :
    e.undefinedIn env =
      e.outside.flatMap (·.undefinedIn env) ++
        e.within.flatMap (·.undefinedIn (env.bind f.bound.name types)) := by
  have hroot : Place.freeReference? ⟨e, []⟩ = none := by
    cases e with
    | reference n x => cases h
    | _ => rfl
  have hin : ∀ rs : List (Node × String),
      (rs.filter fun r => !e.binds r.2).filter (fun r => (env r.2).isNone) =
        rs.filter fun r => (env.bind f.bound.name types r.2).isNone := by
    intro rs
    rw [List.filter_filter]
    refine List.filter_congr fun r _ => ?_
    by_cases hx : r.2 = f.bound.name
    · simp [binds, h, Env.bind, hx]
    · have hne : f.bound.name ≠ r.2 := fun e => hx e.symm
      simp [binds, h, Env.bind, hx, hne]
  rw [undefinedIn, freeReferences_eq, hroot, Option.toList_none, List.nil_append,
    List.filter_append, hin, List.map_append]
  simp only [List.filter_flatMap, List.map_flatMap]
  rfl

/-- What is undefined in a tree that may be missing. -/
theorem undefined_judgeOption (p : Option Expr) (env : Env)
    (ih : ∀ c ∈ p.toList,
      (c.judge .simple env).problems.filter Problem.isUndefined = c.undefinedIn env) :
    ((judgeOption p env).toList.flatMap fun v => v.problems.filter Problem.isUndefined) =
      p.toList.flatMap (·.undefinedIn env) := by
  cases p with
  | none => rw [judgeOption]; rfl
  | some c => simp [judgeOption, ih c (by simp)]

/-- What is undefined in the parts of a filter: an expectation does not add to it. -/
theorem undefined_filterParts {b : Binding} {l : Expr} {p q : Option Expr} (ctx : Context) (env : Env)
    (ih : ∀ c ∈ l :: (p.toList ++ q.toList), ∀ ctx env,
      (c.judge ctx env).problems.filter Problem.isUndefined = c.undefinedIn env) :
    let source := (l.judge ctx env).expecting anyList .mismatch
    let inner := env.bind b.name source.elementTypes
    let predicate := (judgeOption p inner).map (·.expecting truth .mismatch)
    ((source :: (predicate.toList ++ (judgeOption q inner).toList)).flatMap fun v =>
        v.problems.filter Problem.isUndefined) =
      l.undefinedIn env ++ (p.toList ++ q.toList).flatMap (·.undefinedIn inner) := by
  intro source inner predicate
  have hpredicate : (predicate.toList.flatMap fun v => v.problems.filter Problem.isUndefined) =
      (judgeOption p inner).toList.flatMap fun v => v.problems.filter Problem.isUndefined := by
    cases hp : judgeOption p inner with
    | none => simp [predicate, hp]
    | some v => simp [predicate, hp, Verdict.undefined_expecting Verdict.mismatch_code]
  have hp := undefined_judgeOption p inner fun c hc =>
    ih c (List.mem_cons_of_mem _ (List.mem_append_left _ hc)) .simple inner
  have hq := undefined_judgeOption q inner fun c hc =>
    ih c (List.mem_cons_of_mem _ (List.mem_append_right _ hc)) .simple inner
  rw [List.flatMap_cons, List.flatMap_append, List.flatMap_append, hpredicate, hp, hq,
    Verdict.undefined_expecting Verdict.mismatch_code, ih l List.mem_cons_self]

/-- **Undefined names, for verdicts.**  What a verdict says about undefined names are the free
references to names without types, in the order of the text. -/
theorem undefined_judge (e : Expr) (ctx : Context) (env : Env) :
    (e.judge ctx env).problems.filter Problem.isUndefined = e.undefinedIn env := by
  induction e using children_induction generalizing ctx env with
  | node e ih =>
      have hall : ∀ ctx, ((judgeAll e.children ctx env).flatMap fun v =>
          v.problems.filter Problem.isUndefined) = e.children.flatMap (·.undefinedIn env) := by
        intro ctx
        rw [judgeAll_eq, List.flatMap_map]
        exact List.flatMap_congr fun c hc => ih c hc ctx env
      cases e with
      | reference n x =>
          have hfree : (reference n x).freeReferences = [(n, x)] := rfl
          rw [judge, undefinedIn, hfree]
          cases henv : env x with
          | none => simp [henv, Verdict.undefined, undefinedReference, Problem.isUndefined,
              Problem.code, Cause.code]
          | some types => simp [henv, Verdict.above]
      | comprehension n b l p q =>
          have hparts := undefined_filterParts (b := b) ctx env ih
          rw [judge, undefinedIn_of_filter (f := ⟨b, l.node⟩) rfl env
            ((l.judge ctx env).expecting anyList .mismatch).elementTypes]
          dsimp only at hparts ⊢
          rw [Verdict.undefined_filter, hparts]
          simp [outside, within]
      | quantified n k b l p =>
          have hparts := undefined_filterParts (b := b) (q := none) ctx env
            (by simpa [children] using ih)
          have hmissing := undefined_of_allFormal (allFormal_missing k p n.span)
          rw [judge, undefinedIn_of_filter (f := ⟨b, l.node⟩) rfl env
            ((l.judge ctx env).expecting anyList .mismatch).elementTypes]
          dsimp only at hparts ⊢
          rw [judgeOption] at hparts
          rw [Verdict.report, List.filter_append, hmissing, List.append_nil,
            Verdict.undefined_filter, hparts]
          simp [outside, within]
      | call n name distinct es =>
          rw [judge, undefinedIn_of_filter_none rfl (by simp)]
          cases Function.lookup? name with
          | none =>
              have hunknown : [(⟨.unknownFunction name, n.span⟩ : Problem)].filter
                  Problem.isUndefined = [] := rfl
              dsimp only
              rw [Verdict.report, List.filter_append, hunknown, List.append_nil,
                Verdict.undefined_above rfl]
              exact hall ctx
          | some f =>
              dsimp only
              rw [Verdict.undefined_invocation (undefined_callRules n f distinct es.length ctx)]
              exact hall (f.argumentContext ctx)
      | countStar n =>
          rw [judge, undefinedIn_of_filter_none rfl (by simp),
            Verdict.undefined_above (undefined_aggregation n "count(*)" ctx)]
          rfl
      | property n m k =>
          have hm := ih m (by simp [children]) ctx env
          rw [judge, undefinedIn_of_filter_none rfl (by simp), Verdict.undefined_above rfl]
          simp [Verdict.undefined_expecting, Verdict.noMap_code, hm, children]
      | unary n op e =>
          rw [judge, undefinedIn_of_filter_none rfl (by simp), Verdict.undefined_invocation rfl]
          exact hall ctx
      | binary n op l r =>
          rw [judge, undefinedIn_of_filter_none rfl (by simp), Verdict.undefined_invocation rfl]
          exact hall ctx
      | _ =>
          rw [judge, undefinedIn_of_filter_none rfl (by simp), Verdict.undefined_above rfl]
          exact hall ctx

/-- **The names reported as undefined.**  A check reports one undefined name for each free reference
to a name that is not visible, in the order of the text, with the name in the message and at the
position of the reference.  So it reports just the names that the expression reads and that are not
visible. -/
theorem undefined_check {e : Expr} {s : State} (ctx : Context) (hunseen : e.Unseen s) :
    let reported := ((e.check ctx).run s).problems.filter (·.code == "E1002")
    let unresolved := e.freeReferences.filter fun r => (s.symbol? r.2).isNone
    reported = unresolved.map (fun r => ⟨.undefined r.2, r.1.span⟩) ∧
      reported.map (fun p => (p.message, p.span)) =
        unresolved.map (fun r => ("Variable `" ++ r.2 ++ "` not defined", r.1.span)) ∧
      ∀ x, (∃ p ∈ ((e.check ctx).run s).problems, p.cause = .undefined x) ↔
        x ∈ e.dependencies ∧ s.symbol? x = none := by
  intro reported unresolved
  have hreports : reported = e.undefinedIn s.env := by
    rw [← undefined_judge e ctx s.env, ← (run_judge e ctx s hunseen).1]
    rfl
  have hnone : ∀ x, (s.env x).isNone = (s.symbol? x).isNone := by
    intro x
    rw [State.env, Option.isNone_map]
  have hlisted : reported = unresolved.map undefinedReference := by
    rw [hreports, undefinedIn]
    simp only [hnone]
    rfl
  refine ⟨hlisted, ?_, fun x => ?_⟩
  · rw [hlisted, List.map_map]
    rfl
  rw [mem_dependencies_iff, freeNames]
  constructor
  · rintro ⟨p, hp, hcause⟩
    have hmem : p ∈ reported :=
      List.mem_filter.mpr ⟨hp, by simp [Problem.code, hcause, Cause.code, Code.text]⟩
    rw [hlisted] at hmem
    obtain ⟨r, hr, rfl⟩ := List.mem_map.mp hmem
    obtain ⟨hfree, hsymbol⟩ := List.mem_filter.mp hr
    cases hcause
    exact ⟨List.mem_map_of_mem hfree, Option.isNone_iff_eq_none.mp hsymbol⟩
  · rintro ⟨hx, hsymbol⟩
    obtain ⟨r, hr, rfl⟩ := List.mem_map.mp hx
    have hmem : undefinedReference r ∈ reported := by
      rw [hlisted]
      exact List.mem_map_of_mem (List.mem_filter.mpr ⟨hr, Option.isNone_iff_eq_none.mpr hsymbol⟩)
    exact ⟨_, (List.mem_filter.mp hmem).1, rfl⟩

/-- In `[x in xs | x | y]` the free references are those to `xs` and `y`. -/
theorem undefined_check_filter :
    let e := comprehension ⟨1, .unknown⟩ ⟨2, .unknown, "x"⟩ (reference ⟨3, ⟨6, 8, 1, 7⟩⟩ "xs")
      (some (reference ⟨4, .unknown⟩ "x")) (some (reference ⟨5, ⟨15, 16, 1, 16⟩⟩ "y"))
    let reported := ((e.check .simple).run .initial).problems.filter (·.code == "E1002")
    e.Unseen .initial ∧
      reported = [⟨.undefined "xs", ⟨6, 8, 1, 7⟩⟩, ⟨.undefined "y", ⟨15, 16, 1, 16⟩⟩] ∧
      reported.map (fun p => (p.message, p.span)) =
        [("Variable `xs` not defined", ⟨6, 8, 1, 7⟩), ("Variable `y` not defined", ⟨15, 16, 1, 16⟩)] := by
  intro e reported
  have hunseen : e.Unseen .initial := ⟨by decide, by decide⟩
  obtain ⟨hcauses, hmessages, -⟩ := undefined_check .simple hunseen
  exact ⟨hunseen, hcauses.trans (by decide), hmessages.trans (by decide)⟩

end Expr
end QueryTyping
