import QueryTyping.Proofs.Expr.WithoutIds
import QueryTyping.Proofs.Typing.Judge

/-!
# What an analysis depends on

A verdict is found without looking at ids, so the analysis of a tree depends only on the tree without
its ids, the context, and the types of the names that the tree reads.  Neither which ids the tree
has, nor what else is known or declared where the check starts, can make a difference.

Main statements: `judge_withoutIds` says that a verdict does not look at ids, and `check_independent`
that two checks of trees that differ in nothing but ids report the same and learn the same.
-/

namespace QueryTyping.Expr

/-- **A verdict does not look at ids.** -/
theorem judge_withoutIds (e : Expr) (ctx : Context) (env : Env) :
    e.withoutIds.judge ctx env = e.judge ctx env := by
  induction e using children_induction generalizing ctx env with
  | node e ih =>
      have hall : ∀ es : List Expr, (∀ c ∈ es, c ∈ e.children) → ∀ ctx,
          judgeAll (withoutIdsAll es) ctx env = judgeAll es ctx env := by
        intro es hes ctx
        rw [withoutIdsAll_eq, judgeAll_eq, judgeAll_eq, List.map_map]
        exact List.map_congr_left fun c hc => ih c (hes c hc) ctx env
      have hmaybe : ∀ p : Option Expr, (∀ c ∈ p.toList, c ∈ e.children) → ∀ env,
          judgeOption (withoutIdsOption p) env = judgeOption p env := by
        intro p hp env
        cases p with
        | none => rw [withoutIdsOption]
        | some c => rw [withoutIdsOption, judgeOption, judgeOption, ih c (hp c (by simp))]
      cases e with
      | list n es => rw [withoutIds, judge, judge, hall es (fun _ h => h)]; rfl
      | call n name distinct es =>
          have hlength : (withoutIdsAll es).length = es.length := by
            rw [withoutIdsAll_eq, List.length_map]
          rw [withoutIds, judge, judge, hlength]
          cases Function.lookup? name with
          | none => dsimp only; rw [hall es (fun _ h => h)]; rfl
          | some f => dsimp only; rw [hall es (fun _ h => h)]; rfl
      | property n m k => rw [withoutIds, judge, judge, ih m (by simp [children])]; rfl
      | unary n op e => rw [withoutIds, judge, judge, ih e (by simp [children])]; rfl
      | binary n op l r =>
          rw [withoutIds, judge, judge, ih l (by simp [children]), ih r (by simp [children])]
          rfl
      | comprehension n b l p q =>
          have hp := hmaybe p fun c hc => List.mem_cons_of_mem _ (List.mem_append_left _ hc)
          have hq := hmaybe q fun c hc => List.mem_cons_of_mem _ (List.mem_append_right _ hc)
          simp only [withoutIds, judge, ih l (by simp [children]), hp, hq]
          rfl
      | quantified n k b l p =>
          have hp := hmaybe p fun c hc => List.mem_cons_of_mem _ hc
          have hnone : (withoutIdsOption p).isNone = p.isNone := by cases p <;> rfl
          simp only [withoutIds, judge, ih l (by simp [children]), hp, hnone]
          rfl
      | reference n x => rw [withoutIds, judge, judge]; rfl
      | _ => rw [withoutIds, judge, judge]; rfl

/-- Trees that differ in nothing but ids get one verdict, if the names they read have the same
types. -/
theorem judge_alike {e e' : Expr} (hsame : e.withoutIds = e'.withoutIds) (ctx : Context)
    {env env' : Env} (henv : ∀ x ∈ e.freeNames, env x = env' x) :
    e.judge ctx env = e'.judge ctx env' := by
  calc e.judge ctx env
      = e.judge ctx env' := judge_congr e ctx henv
    _ = e.withoutIds.judge ctx env' := (judge_withoutIds e ctx env').symm
    _ = e'.withoutIds.judge ctx env' := by rw [hsame]
    _ = e'.judge ctx env' := judge_withoutIds e' ctx env'

/-- **What an analysis depends on.**  Two checks of trees that differ in nothing but ids, on states
that know nothing about those ids and in which the names that the trees read have the same types,
report the same and learn the same about the nodes and bindings in the same places. -/
theorem check_independent {e e' : Expr} (hsame : e.withoutIds = e'.withoutIds) (ctx : Context)
    {s s' : State} (hunseen : e.Unseen s) (hunseen' : e'.Unseen s')
    (htypes : ∀ x ∈ e.dependencies,
      (s.symbol? x).map Symbol.types = (s'.symbol? x).map Symbol.types) :
    ((e.check ctx).run s).problems = ((e'.check ctx).run s').problems ∧
      e.ids.map ((e.check ctx).run s).state.info? =
        e'.ids.map ((e'.check ctx).run s').state.info? := by
  have henv : ∀ x ∈ e.freeNames, s.env x = s'.env x :=
    fun x hx => htypes x (mem_dependencies_iff.mpr hx)
  have hverdict : e.judge ctx s.env = e'.judge ctx s'.env := judge_alike hsame ctx henv
  obtain ⟨hproblems, hshows⟩ := run_judge e ctx s hunseen
  obtain ⟨hproblems', hshows'⟩ := run_judge e' ctx s' hunseen'
  constructor
  · rw [hproblems, hproblems', hverdict]
  · rw [hshows.infos, hshows'.infos, hverdict]

/-- A filter with other ids, in a state with another declaration around it. -/
theorem check_independent_filter :
    let e := comprehension ⟨1, .unknown⟩ ⟨2, .unknown, "x"⟩ (reference ⟨3, .unknown⟩ "xs")
      (some (reference ⟨4, .unknown⟩ "x")) none
    let e' := comprehension ⟨8, .unknown⟩ ⟨6, .unknown, "x"⟩ (reference ⟨9, .unknown⟩ "xs")
      (some (reference ⟨7, .unknown⟩ "x")) none
    let s := State.initial.enter ⟨7, .unknown, "xs"⟩ (.covariant (.list .integer))
    let s' := (State.initial.enter ⟨2, .unknown, "y"⟩ .all).enter ⟨1, .unknown, "xs"⟩
      (.covariant (.list .integer))
    e.Unseen s ∧ e'.Unseen s' ∧
      ((e.check .simple).run s).problems = ((e'.check .simple).run s').problems ∧
      e.ids.map ((e.check .simple).run s).state.info? =
        e'.ids.map ((e'.check .simple).run s').state.info? := by
  intro e e' s s'
  have hunseen : e.Unseen s := ⟨by decide, by decide⟩
  have hunseen' : e'.Unseen s' := ⟨by decide, by decide⟩
  have hnames : e.freeNames = ["xs"] := by decide
  have hsame : e.withoutIds = e'.withoutIds := rfl
  have htypes : ∀ x ∈ e.dependencies,
      (s.symbol? x).map Symbol.types = (s'.symbol? x).map Symbol.types := by
    intro x hx
    rw [mem_dependencies_iff, hnames, List.mem_singleton] at hx
    rw [hx]
    decide
  exact ⟨hunseen, hunseen', check_independent hsame .simple hunseen hunseen' htypes⟩

end QueryTyping.Expr
