import Mathlib.Data.List.Forall2
import QueryTyping.Proofs.Typing.Filters
import QueryTyping.Proofs.Typing.Verdict

/-!
# The run of a check comes to its verdict

A check of a tree of new ids threads a state through the tree, in which everything that was learned
before is still there.  Still what it reports and what it learns about the tree is the verdict on
the tree, given the types of the names in scope: each part is checked on a state that knows nothing
about it and in which the names mean what they should, and later parts write elsewhere.

Main statements: `narrow_shows` ties narrowing in a state to narrowing of verdicts, and `run_judge`
says that the run of a check comes to the verdict.
-/

namespace QueryTyping

/-- A state in which the entries of a tree are as the verdict says. -/
structure Expr.Shows (e : Expr) (s : State) (v : Verdict) : Prop where
  span : v.span = e.span
  root : s.info? e.id = v.root
  below : e.lowerIds.map s.info? = v.below

/-- The same for trees in a row. -/
abbrev ShowsAll (cs : List Expr) (s : State) (vs : List Verdict) : Prop :=
  List.Forall₂ (fun c v => c.Shows s v) cs vs

variable {e c : Expr} {cs : List Expr} {s t : State} {v : Verdict} {vs : List Verdict}

namespace Expr.Shows

theorem infos (h : e.Shows s v) : e.ids.map s.info? = v.infos := by
  rw [ids_eq_cons, List.map_cons, h.root, h.below, Verdict.infos]

theorem types (h : e.Shows s v) : s.types e.id = v.types := by
  cases hroot : v.root <;> simp only [State.types, Verdict.types, h.root, hroot]

theorem of_info_eq (h : e.Shows s v) (heq : ∀ i ∈ e.ids, t.info? i = s.info? i) :
    e.Shows t v where
  span := h.span
  root := (heq _ (id_mem_ids e)).trans h.root
  below := by
    rw [← h.below]
    exact List.map_congr_left fun i hi => heq i (mem_ids_of_mem_lowerIds hi)

theorem report (h : e.Shows s v) (problems : List Problem) : e.Shows s (v.report problems) :=
  ⟨h.span, h.root, h.below⟩

/-- An expectation on the root. -/
theorem expect (h : e.Shows s v) (hid : e.id ∉ e.lowerIds) (possible : TypeSet) :
    e.Shows (s.expect e.id possible) (v.expect possible) where
  span := h.span
  root := by simp [h.root, Verdict.expect]
  below := by
    rw [Verdict.expect, ← h.below]
    refine List.map_congr_left fun i hi => ?_
    have hne : i ≠ e.id := fun heq => hid (heq ▸ hi)
    simp [hne]

/-- An expectation on the root, and what it reports. -/
theorem expectTypes (h : e.Shows s v) (hid : e.id ∉ e.lowerIds) (possible : TypeSet)
    (cause : TypeSet → TypeSet → Cause) :
    (s.expectTypes e.node possible cause).problems = v.blame possible cause ∧
      e.Shows (s.expectTypes e.node possible cause).state (v.expect possible) := by
  have hafter := h.expect hid possible
  have htypes : (s.expect e.node.id possible).types e.node.id = (v.expect possible).types :=
    hafter.types
  have hbefore : s.types e.node.id = v.types := h.types
  have hspan : v.span = e.node.span := h.span
  constructor
  · rw [State.expectTypes, Verdict.blame, ← htypes, ← hbefore, hspan]
    split <;> rfl
  · rw [State.state_expectTypes]
    exact hafter

end Expr.Shows

namespace ShowsAll

theorem infos (h : ShowsAll cs s vs) :
    (cs.flatMap Expr.ids).map s.info? = vs.flatMap Verdict.infos := by
  induction h with
  | nil => rfl
  | cons hc _ ih => rw [List.flatMap_cons, List.map_append, hc.infos, ih, List.flatMap_cons]

theorem types (h : ShowsAll cs s vs) :
    (cs.map fun c => s.types c.id) = vs.map Verdict.types := by
  induction h with
  | nil => rfl
  | cons hc _ ih => rw [List.map_cons, hc.types, ih, List.map_cons]

theorem of_info_eq (h : ShowsAll cs s vs)
    (heq : ∀ c ∈ cs, ∀ i ∈ c.ids, t.info? i = s.info? i) : ShowsAll cs t vs := by
  induction h with
  | nil => exact .nil
  | cons hc _ ih =>
      have hhead := heq _ List.mem_cons_self
      have hrest := ih fun d hd => heq d (List.mem_cons_of_mem _ hd)
      exact .cons (hc.of_info_eq hhead) hrest

end ShowsAll

/-- **Narrowing.**  Arguments of distinct ids are narrowed as their verdicts are. -/
theorem narrow_shows (h : ShowsAll cs s vs) (hnodup : (cs.flatMap Expr.ids).Nodup)
    (alive : List Signature) :
    let outcome := State.narrow (cs.map Expr.node) alive s
    let narrowed := Verdict.narrow vs alive
    outcome.1.problems = narrowed.problems ∧ outcome.2 = narrowed.alive ∧
      ShowsAll cs outcome.1.state narrowed.parts := by
  induction cs generalizing s vs alive with
  | nil => cases h; exact ⟨rfl, rfl, .nil⟩
  | cons c cs ih =>
      obtain ⟨v, vs, hc, hcs, rfl⟩ := List.forall₂_cons_left_iff.mp h
      cases alive with
      | nil => exact ⟨rfl, rfl, .cons hc hcs⟩
      | cons g gs =>
          obtain ⟨hdistinct, hrest, hapart⟩ := Expr.nodup_flatMap_ids_cons.mp hnodup
          have hid : c.id ∉ c.lowerIds := Expr.id_not_mem_lowerIds hdistinct
          let possible := TypeSet.unions ((g :: gs).map Signature.accepted)
          obtain ⟨hproblems, hshows⟩ := hc.expectTypes hid possible .mismatch
          let after := (s.expectTypes c.node possible .mismatch).state
          have htypes : after.types c.node.id = (v.expect possible).types := hshows.types
          have hothers : ShowsAll cs after vs := by
            refine ShowsAll.of_info_eq hcs fun d hd i hi => ?_
            have hne : i ≠ c.node.id := fun (heq : i = c.id) =>
              hapart d hd c.id (Expr.id_mem_ids c) (heq ▸ hi)
            simp [after, hne]
          let left := ((g :: gs).filter fun g => (v.expect possible).types.meets g.accepted).map
            Signature.rest
          obtain ⟨hproblems', halive, hparts⟩ := ih hothers hrest left
          have hnarrow : State.narrow ((c :: cs).map Expr.node) (g :: gs) s =
              (⟨(State.narrow (cs.map Expr.node) left after).1.state,
                (s.expectTypes c.node possible .mismatch).problems ++
                  (State.narrow (cs.map Expr.node) left after).1.problems⟩,
                (State.narrow (cs.map Expr.node) left after).2) := by
            simp only [List.map_cons, State.narrow, left, ← htypes]
            rfl
          have hsame : ∀ i ∈ c.ids,
              (State.narrow (cs.map Expr.node) left after).1.state.info? i = after.info? i := by
            intro i hi
            refine State.info_narrow_frame (fun n hn heq => ?_) left after
            obtain ⟨d, hd, rfl⟩ := List.mem_map.mp hn
            exact hapart d hd i hi (heq ▸ Expr.id_mem_ids d)
          rw [hnarrow]
          refine ⟨?_, halive, .cons (hshows.of_info_eq hsame) hparts⟩
          simp only [Verdict.narrow, hproblems, hproblems']
          rfl

/-- A node nothing is known about is specified without fail. -/
theorem Expr.specify_shows (hunknown : s.info? e.id = none) (hid : e.id ∉ e.lowerIds)
    {below : List (Option TypeInfo)} (hbelow : e.lowerIds.map s.info? = below)
    (types : State → TypeSet) (problems : List Problem) :
    ((Check.specify e.node types).run s).problems = [] ∧
      e.Shows ((Check.specify e.node types).run s).state
        ⟨e.span, some ⟨types s, none⟩, below, problems⟩ := by
  have hunknown' : s.info? e.node.id = none := hunknown
  have hrun : (Check.specify e.node types).run s =
      ⟨{ s with infos := s.infos.set e.node.id ⟨types s, none⟩ }.next, []⟩ := by
    rw [Check.run, State.specify_of_unknown hunknown', Outcome.ofExcept]
  rw [hrun]
  refine ⟨rfl, rfl, by simp [State.info?, State.next, Expr.id], ?_⟩
  rw [← hbelow]
  refine List.map_congr_left fun i hi => ?_
  have hne : i ≠ e.node.id := fun (heq : i = e.id) => hid (heq ▸ hi)
  simp [State.info?, State.next, hne]

namespace Expr

/-- The verdict on a tree is what its check comes to, on each state that knows nothing about it. -/
def Judged (e : Expr) : Prop :=
  ∀ ctx s, e.Unseen s →
    ((e.check ctx).run s).problems = (e.judge ctx s.env).problems ∧
      e.Shows ((e.check ctx).run s).state (e.judge ctx s.env)

theorem env_run_check (e : Expr) (ctx : Context) (s : State) :
    ((e.check ctx).run s).state.env = s.env := by
  funext x
  rw [State.env, symbol_run_check, State.env]

/-- Trees in a row come to their verdicts. -/
theorem run_checkAll (ih : ∀ c ∈ cs, c.Judged) (ctx : Context)
    (hnodup : (cs.flatMap ids).Nodup) (hunseen : ∀ c ∈ cs, c.Unseen s) :
    ((checkAll cs ctx).run s).problems = (judgeAll cs ctx s.env).flatMap Verdict.problems ∧
      ShowsAll cs ((checkAll cs ctx).run s).state (judgeAll cs ctx s.env) := by
  induction cs generalizing s with
  | nil => rw [checkAll, judgeAll]; exact ⟨rfl, .nil⟩
  | cons c cs ihs =>
      obtain ⟨hc, hrest, hapart⟩ := nodup_flatMap_ids_cons.mp hnodup
      have hforeign : ∀ d ∈ cs, ∀ i ∈ d.ids, i ∉ (c.check ctx).touched :=
        fun d hd i hi htouched => hapart d hd i (mem_ids_of_touched htouched) hi
      obtain ⟨hproblems, hshows⟩ := ih c List.mem_cons_self ctx s (hunseen c List.mem_cons_self)
      obtain ⟨hproblems', hshows'⟩ := ihs (fun d hd => ih d (List.mem_cons_of_mem _ hd))
        (s := ((c.check ctx).run s).state) hrest
        (fun d hd => (hunseen d (List.mem_cons_of_mem _ hd)).of_run (hforeign d hd))
      rw [env_run_check] at hproblems' hshows'
      have hlater : ∀ i ∈ c.ids, i ∉ (checkAll cs ctx).touched := fun i hi =>
        not_touched_checkAll fun d hd => hapart d hd i hi
      rw [checkAll, judgeAll]
      constructor
      · simp only [Check.run, Outcome.andThen, hproblems, hproblems', List.flatMap_cons]
      · refine .cons (hshows.of_info_eq fun i hi => ?_) hshows'
        exact Check.run_info_of_not_touched (hlater i hi) _

/-- The predicate of a filter comes to its verdict, with what is expected of it. -/
theorem run_checkPredicate {p : Option Expr} (ih : ∀ c ∈ p.toList, c.Judged)
    (hunseen : ∀ c ∈ p.toList, c.Unseen s) :
    let verdict := (judgeOption p s.env).map (·.expecting truth .mismatch)
    ((checkPredicate p).run s).problems = verdict.toList.flatMap Verdict.problems ∧
      ShowsAll p.toList ((checkPredicate p).run s).state verdict.toList := by
  cases p with
  | none => rw [checkPredicate, judgeOption]; exact ⟨rfl, .nil⟩
  | some c =>
      have hnew := hunseen c (by simp)
      obtain ⟨hproblems, hshows⟩ := ih c (by simp) .simple s hnew
      obtain ⟨hblame, hexpected⟩ :=
        hshows.expectTypes (id_not_mem_lowerIds hnew.distinct) truth .mismatch
      rw [checkPredicate, judgeOption]
      constructor
      · simp [Check.all, Check.run, Outcome.andThen, hproblems, hblame, Verdict.expecting,
          Verdict.report, Verdict.expect]
      · exact .cons (hexpected.report _) .nil

/-- The projection of a filter comes to its verdict. -/
theorem run_checkProjection {q : Option Expr} (ih : ∀ c ∈ q.toList, c.Judged)
    (hunseen : ∀ c ∈ q.toList, c.Unseen s) :
    let verdict := judgeOption q s.env
    ((checkProjection q).run s).problems = verdict.toList.flatMap Verdict.problems ∧
      ShowsAll q.toList ((checkProjection q).run s).state verdict.toList := by
  cases q with
  | none => rw [checkProjection, judgeOption]; exact ⟨rfl, .nil⟩
  | some c =>
      obtain ⟨hproblems, hshows⟩ := ih c (by simp) .simple s (hunseen c (by simp))
      rw [checkProjection, judgeOption]
      exact ⟨by simp [hproblems], .cons hshows .nil⟩

/-- The list of a filter comes to its verdict, with what is expected of it. -/
theorem run_list {l : Expr} (hl : l.Judged) (ctx : Context) (hunseen : l.Unseen s) :
    let listed := (l.check ctx).run s
    let source := (l.judge ctx s.env).expecting anyList .mismatch
    listed.problems ++ (listed.state.expectTypes l.node anyList .mismatch).problems =
        source.problems ∧
      l.Shows (l.afterList ctx s) source := by
  intro listed source
  obtain ⟨hproblems, hshows⟩ := hl ctx s hunseen
  obtain ⟨hblame, hexpected⟩ :=
    hshows.expectTypes (id_not_mem_lowerIds hunseen.distinct) anyList .mismatch
  refine ⟨?_, hexpected.report _⟩
  rw [hproblems, hblame]
  rfl

/-- Inside of a filter its name has the types of the elements of the list. -/
theorem env_entered {l : Expr} {source : Verdict} {ctx : Context}
    (h : l.Shows (l.afterList ctx s) source) (b : Binding) :
    (l.entered b ctx s).env = s.env.bind b.name source.elementTypes ∧
      (l.entered b ctx s).info? b.id = some ⟨source.elementTypes, none⟩ := by
  have htypes : (l.afterList ctx s).types l.node.id = source.types := h.types
  have helements : elementTypes l.node (l.afterList ctx s) = source.elementTypes := by
    rw [elementTypes, htypes, Verdict.elementTypes]
  rw [entered, helements]
  constructor
  · funext x
    simp only [State.env, State.symbol_enter, symbol_afterList, Env.bind]
    split <;> rfl
  · rw [State.info_enter, if_pos rfl]

/-- The predicate and the projection of a filter come to their verdicts, one after the other. -/
theorem run_inside {p q : Option Expr} (ih : ∀ c ∈ p.toList ++ q.toList, c.Judged)
    (hnodup : ((p.toList ++ q.toList).flatMap ids).Nodup)
    (hunseen : ∀ c ∈ p.toList ++ q.toList, c.Unseen s) :
    let predicate := (judgeOption p s.env).map (·.expecting truth .mismatch)
    let projection := judgeOption q s.env
    let filtered := (checkPredicate p).run s
    let projected := (checkProjection q).run filtered.state
    filtered.problems ++ projected.problems =
        (predicate.toList ++ projection.toList).flatMap Verdict.problems ∧
      ShowsAll (p.toList ++ q.toList) projected.state (predicate.toList ++ projection.toList) := by
  intro predicate projection filtered projected
  rw [List.flatMap_append, List.nodup_append] at hnodup
  obtain ⟨-, -, hdisjoint⟩ := hnodup
  have hapart : ∀ c ∈ p.toList, ∀ d ∈ q.toList, ∀ i ∈ c.ids, i ∉ d.ids := by
    intro c hc d hd i hi hid
    exact hdisjoint i (List.mem_flatMap.mpr ⟨c, hc, hi⟩) i (List.mem_flatMap.mpr ⟨d, hd, hid⟩) rfl
  have hforeign : ∀ d ∈ q.toList, ∀ i ∈ d.ids, i ∉ (checkPredicate p).touched := by
    intro d hd i hi
    exact not_touched_checkPredicate fun c hc hic => hapart c hc d hd i hic hi
  obtain ⟨hproblems, hshows⟩ := run_checkPredicate
    (fun c hc => ih c (List.mem_append_left _ hc)) (fun c hc => hunseen c (List.mem_append_left _ hc))
  obtain ⟨hproblems', hshows'⟩ := run_checkProjection (s := filtered.state)
    (fun c hc => ih c (List.mem_append_right _ hc))
    (fun c hc => (hunseen c (List.mem_append_right _ hc)).of_run (hforeign c hc))
  have henv : filtered.state.env = s.env := by
    funext x
    rw [State.env, Check.run_symbol (closed_checkPredicate p), State.env]
  rw [henv] at hproblems' hshows'
  constructor
  · rw [hproblems, hproblems', List.flatMap_append]
  · refine List.rel_append (ShowsAll.of_info_eq hshows fun c hc i hi => ?_) hshows'
    refine Check.run_info_of_not_touched (not_touched_checkProjection fun d hd => ?_) _
    exact hapart c hc d hd i hi

/-- **The parts of a filter come to their verdicts**, and the name that it binds gets the types of
the elements of its list. -/
theorem run_filterBody_judged {b : Binding} {l : Expr} {p q : Option Expr}
    (ih : ∀ c ∈ l :: (p.toList ++ q.toList), c.Judged) (ctx : Context)
    (hnodup : ((l :: (p.toList ++ q.toList)).flatMap ids).Nodup)
    (hb : ∀ c ∈ l :: (p.toList ++ q.toList), b.id ∉ c.ids) (hs : s.info? b.id = none)
    (hunseen : ∀ c ∈ l :: (p.toList ++ q.toList), c.Unseen s) :
    let source := (l.judge ctx s.env).expecting anyList .mismatch
    let inner := s.env.bind b.name source.elementTypes
    let predicate := (judgeOption p inner).map (·.expecting truth .mismatch)
    let parts := source :: (predicate.toList ++ (judgeOption q inner).toList)
    ((filterBody ctx b l p q).run s).problems = parts.flatMap Verdict.problems ∧
      ShowsAll (l :: (p.toList ++ q.toList)) ((filterBody ctx b l p q).run s).state parts ∧
      ((filterBody ctx b l p q).run s).state.info? b.id = some ⟨source.elementTypes, none⟩ := by
  intro source inner predicate parts
  have hmem : ∀ c ∈ p.toList ++ q.toList, c ∈ l :: (p.toList ++ q.toList) :=
    fun c hc => List.mem_cons_of_mem _ hc
  have hl : b.id ∉ l.ids := hb l List.mem_cons_self
  obtain ⟨-, hrest, hapart⟩ := nodup_flatMap_ids_cons.mp hnodup
  obtain ⟨hlproblems, hlshows⟩ :=
    run_list (ih l List.mem_cons_self) ctx (hunseen l List.mem_cons_self)
  obtain ⟨henv, hbound⟩ := env_entered hlshows b
  have hnew : ∀ c ∈ p.toList ++ q.toList, c.Unseen (l.entered b ctx s) := fun c hc =>
    (hunseen c (hmem c hc)).entered (fun i hi hil => hapart c hc i hil hi) (hb c (hmem c hc)) ctx
  obtain ⟨hproblems, hshows⟩ := run_inside (fun c hc => ih c (hmem c hc)) hrest hnew
  rw [henv] at hproblems hshows
  rw [run_filterBody ctx p q hs hl]
  refine ⟨?_, .cons (hlshows.of_info_eq fun i hi => ?_)
    (ShowsAll.of_info_eq hshows fun c hc i hi => State.info_pop _ i), ?_⟩
  · dsimp only
    rw [hproblems, ← List.append_assoc, hlproblems, List.flatMap_cons]
  · have hne : i ≠ b.id := fun heq => hl (heq ▸ hi)
    exact (afterInside_frame (fun c hc => hapart c hc i hi) hne ctx s).1
  · obtain ⟨hsame, -⟩ := run_parts_frame (fun c hc => hb c (hmem c hc)) (l.entered b ctx s)
    rw [State.info_pop, afterInside, hsame, hbound]

/-! The closing of a node, given that its parts have come to their verdicts -/

/-- A node that specifies itself over its parts. -/
theorem specify_above (hbound : e.bound? = none) (hid : e.id ∉ e.lowerIds)
    (hunknown : s.info? e.id = none) (hparts : ShowsAll e.children s vs)
    (types : State → TypeSet) (remarks : List Problem) :
    let outcome := (Check.specify e.node types).run s
    let verdict := Verdict.above e.node remarks vs (types s)
    remarks ++ (vs.flatMap Verdict.problems ++ outcome.problems) = verdict.problems ∧
      e.Shows outcome.state verdict := by
  intro outcome verdict
  have hbelow : e.lowerIds.map s.info? = vs.flatMap Verdict.infos := by
    rw [lowerIds, hbound]
    exact hparts.infos
  obtain ⟨hnone, hshows⟩ := specify_shows hunknown hid hbelow types verdict.problems
  refine ⟨?_, hshows⟩
  rw [hnone, List.append_nil]
  rfl

/-- A node that invokes something on its children. -/
theorem invoke_above (hbound : e.bound? = none) (he : e.ids.Nodup)
    (hunknown : s.info? e.id = none) (hparts : ShowsAll e.children s vs)
    (signatures : List Signature) (remarks : List Problem) :
    let outcome := (Check.invoke e.node (e.children.map node) signatures).run s
    let verdict := Verdict.invocation e.node remarks vs signatures
    remarks ++ (vs.flatMap Verdict.problems ++ outcome.problems) = verdict.problems ∧
      e.Shows outcome.state verdict := by
  intro outcome verdict
  let alive := signatures.filter (·.arity == vs.length)
  have hlength : (e.children.map node).length = vs.length := by
    rw [List.length_map, hparts.length_eq]
  obtain ⟨hproblems, halive, hafter⟩ := narrow_shows hparts (nodup_children he) alive
  have hunknown' : (State.narrow (e.children.map node) alive s).1.state.info? e.id = none := by
    refine (State.info_narrow_frame (fun n hn heq => ?_) _ _).trans hunknown
    obtain ⟨c, hc, rfl⟩ := List.mem_map.mp hn
    exact id_not_mem_child he hc (heq ▸ id_mem_ids c)
  have hbelow : e.lowerIds.map (State.narrow (e.children.map node) alive s).1.state.info? =
      (Verdict.narrow vs alive).parts.flatMap Verdict.infos := by
    rw [lowerIds, hbound]
    exact hafter.infos
  obtain ⟨hnone, hshows⟩ := specify_shows hunknown' (id_not_mem_lowerIds he) hbelow
    (fun _ => State.outputs (Verdict.narrow vs alive).alive) verdict.problems
  have hrun : outcome = ((State.narrow (e.children.map node) alive s).1).andThen
      (Check.specify e.node fun _ => State.outputs (Verdict.narrow vs alive).alive).run := by
    simp only [outcome, Check.run, State.invoke, hlength, halive, alive]
  rw [hrun]
  refine ⟨?_, hshows⟩
  rw [Outcome.andThen, hnone, List.append_nil, hproblems, ← List.append_assoc]
  rfl

theorem listTypes_eq (h : ShowsAll cs s vs) :
    listTypes (cs.map node) s = Verdict.listTypes vs := by
  cases h with
  | nil => rfl
  | cons hc hcs =>
      have htypes := ShowsAll.types (.cons hc hcs)
      exact congrArg (fun ts => (TypeSet.joins ts).wrap) (by rw [← htypes, List.map_map]; rfl)

/-- What a body touches is below the root. -/
theorem id_not_touched_body (he : e.ids.Nodup) (ctx : Context) : e.id ∉ (e.body ctx).touched := by
  intro htouched
  have hbelow := id_not_mem_lowerIds he
  rcases mem_touched_body htouched with ⟨b, hb, hi⟩ | ⟨c, hc, ctx', hi | hi⟩
  · exact hbelow (hi ▸ bound_mem_lowerIds hb)
  · exact hbelow (mem_lowerIds_of_mem_children hc (mem_ids_of_touched hi))
  · exact hbelow (hi ▸ mem_lowerIds_of_mem_children hc (id_mem_ids c))

/-- A reference comes to its verdict: it has the types of its name, or it is reported. -/
theorem judged_reference (n : Node) (x : String) : (reference n x).Judged := by
  intro ctx s hunseen
  have hid := id_not_mem_lowerIds hunseen.distinct
  have hinfo : s.info? n.id = none := hunseen.unknown _ (id_mem_ids (reference n x))
  rw [check, judge, Check.run, State.resolve, State.env]
  cases s.symbol? x with
  | none => exact ⟨rfl, rfl, hinfo, rfl⟩
  | some symbol =>
      dsimp only [Option.map_some]
      obtain ⟨-, hshows⟩ := specify_above (e := reference n x) rfl hid hinfo .nil
        (fun _ => symbol.types) []
      rw [State.specify_of_unknown hinfo]
      simp only [Check.run, State.specify_of_unknown (n := (reference n x).node) hinfo] at hshows
      exact ⟨rfl, hshows.span, hshows.root, hshows.below⟩

/-- A property comes to its verdict when its map, which has come to its own, is expected to be one. -/
theorem property_above {n : Node} {m : Expr} {k : String} (he : (property n m k).ids.Nodup)
    (hunknown : s.info? (property n m k).id = none) (hm : m.Shows s v) :
    let outcome := (property n m k).closing.run s
    let verdict := Verdict.above n [] [v.expecting anyMap fun _ actual => .noMap actual] .all
    v.problems ++ outcome.problems = verdict.problems ∧
      (property n m k).Shows outcome.state verdict := by
  intro outcome verdict
  have hchild : m ∈ (property n m k).children := by simp [children]
  have hm' : m.id ∉ m.lowerIds := id_not_mem_lowerIds (nodup_of_mem_children he hchild)
  obtain ⟨hblame, hexpected⟩ := hm.expectTypes hm' anyMap fun _ actual => .noMap actual
  have hmap : ShowsAll [m] (s.expectTypes m.node anyMap fun _ actual => .noMap actual).state
      [v.expecting anyMap fun _ actual => .noMap actual] := .cons (hexpected.report _) .nil
  have hne : (property n m k).id ≠ m.node.id := fun heq =>
    id_not_mem_child he hchild (heq ▸ id_mem_ids m)
  have hunknown' : (s.expectTypes m.node anyMap fun _ actual =>
      .noMap actual).state.info? (property n m k).id = none := by
    simp [hne, hunknown]
  obtain ⟨habove, hafter⟩ := specify_above (e := property n m k) rfl (id_not_mem_lowerIds he)
    hunknown' hmap (fun _ => .all) []
  refine ⟨Eq.trans ?_ habove, hafter⟩
  have hnode : (property n m k).node = n := rfl
  simp [outcome, hnode, closing, Check.all, Check.fixed, Check.run, Outcome.andThen, hblame,
    Verdict.expecting, Verdict.report, Verdict.expect]

/-- A node that is neither a filter nor a reference comes to its verdict if its children do. -/
theorem judged_of_filter_none (hfilter : e.filter? = none) (href : ∀ n x, e ≠ reference n x)
    (ih : ∀ c ∈ e.children, c.Judged) : e.Judged := by
  intro ctx s hunseen
  have he := hunseen.distinct
  have hid := id_not_mem_lowerIds he
  have hbound : e.bound? = none := by rw [bound_eq, hfilter, Option.map_none]
  have hunknown := hunseen.root_unknown (id_not_touched_body he ctx)
  obtain ⟨hproblems, hshows⟩ :=
    run_checkAll ih (e.childContext ctx) (nodup_children he) fun c hc => hunseen.child hc
  rw [run_check_stages]
  dsimp only
  rw [body_of_filter_none hfilter] at hunknown ⊢
  generalize (checkAll e.children (e.childContext ctx)).run s = parts at hunknown hproblems hshows
  have hspecify := specify_above hbound hid hunknown hshows
  have hinvoke := invoke_above hbound he hunknown hshows
  rw [hproblems]
  cases e with
  | literal n v => rw [judge]; exact hspecify (fun _ => v.types) []
  | parameter n x => rw [judge]; exact hspecify (fun _ => .all) []
  | countStar n =>
      rw [judge]
      exact hspecify (fun _ => .exact .integer) (Check.aggregation n "count(*)" ctx).reports
  | list n es =>
      have htypes : listTypes (es.map node) parts.state = Verdict.listTypes (judgeAll es ctx s.env) :=
        listTypes_eq hshows
      rw [judge, ← htypes]
      exact hspecify (listTypes (es.map node)) []
  | unary n op e => rw [judge]; exact hinvoke op.signatures []
  | binary n op l r => rw [judge]; exact hinvoke op.signatures []
  | property n m k =>
      have hm : m.Shows parts.state (m.judge ctx s.env) := (List.forall₂_cons.mp hshows).1
      obtain ⟨hclosing, hafter⟩ := property_above he hunknown hm
      have hparts : judgeAll (property n m k).children ((property n m k).childContext ctx) s.env =
          [m.judge ctx s.env] := rfl
      rw [judge, hparts, ← hclosing]
      exact ⟨by simp [opening, Check.reports], hafter⟩
  | call n name distinct es =>
      rw [judge, closing, opening]
      cases hf : Function.lookup? name with
      | none =>
          have hctx : (call n name distinct es).childContext ctx = ctx := by rw [childContext, hf]
          rw [hctx] at hspecify ⊢
          obtain ⟨-, habove⟩ := hspecify (fun _ => .all) []
          obtain ⟨hnone, -⟩ := specify_shows hunknown hid rfl (fun _ => .all) []
          refine ⟨?_, habove.report _⟩
          have hlast : ((Check.fixed n .all).run parts.state).problems = [] := hnone
          simp [Verdict.report, Verdict.above, Check.reports, Check.all, Check.run, Outcome.andThen,
            children, hlast]
      | some f =>
          have hctx : (call n name distinct es).childContext ctx = f.argumentContext ctx := by
            rw [childContext, hf]
          rw [hctx] at hinvoke ⊢
          exact hinvoke f.signatures (Check.callRules n f distinct es.length ctx).reports
  | reference n x => exact absurd rfl (href n x)
  | comprehension n b l p q => cases hfilter
  | quantified n k b l p => cases hfilter

/-- The types of a comprehension are read off the verdicts on its parts. -/
theorem comprehensionTypes_eq {l : Expr} {p q : Option Expr} {source : Verdict}
    {predicate projection : Option Verdict} (hp : predicate.isSome = p.isSome)
    (h : ShowsAll (l :: (p.toList ++ q.toList)) s
      (source :: (predicate.toList ++ projection.toList))) :
    comprehensionTypes l.node (q.map node) s =
      Verdict.comprehensionTypes source projection := by
  obtain ⟨hl, hparts⟩ := List.forall₂_cons.mp h
  have hsource : s.types l.node.id = source.types := hl.types
  have hlengths : p.toList.length = predicate.toList.length := by
    cases p <;> cases predicate <;> simp_all
  have hq : ShowsAll q.toList s projection.toList := by
    have hdrop := List.forall₂_drop p.toList.length hparts
    rwa [List.drop_left, hlengths, List.drop_left] at hdrop
  cases q with
  | none =>
      cases projection with
      | none => simp [comprehensionTypes, Verdict.comprehensionTypes, hsource]
      | some v => cases hq
  | some c =>
      cases projection with
      | none => cases hq
      | some v =>
          have hc : s.types c.node.id = v.types := (List.forall₂_cons.mp hq).1.types
          simp [comprehensionTypes, Verdict.comprehensionTypes, hc]

/-- A filter over its parts: after its body, it can be specified to be of any types. -/
theorem filter_above {b : Binding} {l : Expr} {p q : Option Expr} (hb : e.bound? = some b)
    (hchildren : e.children = l :: (p.toList ++ q.toList)) (ih : ∀ c ∈ e.children, c.Judged)
    (ctx : Context) (hunseen : e.Unseen s) (hbody : e.body ctx = filterBody ctx b l p q) :
    let source := (l.judge ctx s.env).expecting anyList .mismatch
    let inner := s.env.bind b.name source.elementTypes
    let predicate := (judgeOption p inner).map (·.expecting truth .mismatch)
    let projection := judgeOption q inner
    let outcome := (e.body ctx).run s
    outcome.problems =
        (source :: (predicate.toList ++ projection.toList)).flatMap Verdict.problems ∧
      ShowsAll (l :: (p.toList ++ q.toList)) outcome.state
        (source :: (predicate.toList ++ projection.toList)) ∧
      ∀ types : State → TypeSet,
        let last := (Check.specify e.node types).run outcome.state
        last.problems = [] ∧
          e.Shows last.state
            (.filter e.node source predicate projection (types outcome.state)) := by
  have he := hunseen.distinct
  have hunknown := hunseen.root_unknown (id_not_touched_body he ctx)
  have hs : s.info? b.id = none :=
    hunseen.unknown _ (mem_ids_of_mem_lowerIds (bound_mem_lowerIds hb))
  have hlower : e.lowerIds = b.id :: (l :: (p.toList ++ q.toList)).flatMap ids := by
    rw [lowerIds, hb, hchildren]
    rfl
  have hbinding : ∀ c ∈ e.children, b.id ∉ c.ids := fun c hc => bound_not_mem_child he hb hc
  have hnew : ∀ c ∈ e.children, c.Unseen s := fun c hc => hunseen.child hc
  have hnodup := nodup_children he
  rw [hchildren] at ih hnodup hbinding hnew
  obtain ⟨hproblems, hshows, hbound⟩ := run_filterBody_judged ih ctx hnodup hbinding hs hnew
  rw [hbody] at hunknown ⊢
  refine ⟨hproblems, hshows, fun types => ?_⟩
  refine specify_shows hunknown (id_not_mem_lowerIds he) ?_ types _
  rw [hlower, List.map_cons, hbound, hshows.infos]

theorem judged_comprehension {n : Node} {b : Binding} {l : Expr} {p q : Option Expr}
    (ih : ∀ c ∈ (comprehension n b l p q).children, c.Judged) :
    (comprehension n b l p q).Judged := by
  intro ctx s hunseen
  obtain ⟨hproblems, hshows, hspecify⟩ :=
    filter_above (e := comprehension n b l p q) rfl rfl ih ctx hunseen rfl
  rw [run_check_stages, judge]
  dsimp only
  rw [hproblems]
  generalize ((comprehension n b l p q).body ctx).run s = parts at hshows hspecify
  have htypes := comprehensionTypes_eq (by simp [judgeOption_eq]) hshows
  obtain ⟨hnone, habove⟩ := hspecify (comprehensionTypes l.node (q.map node))
  rw [htypes] at habove
  refine ⟨?_, habove⟩
  have hlast : ((comprehension n b l p q).closing.run parts.state).problems = [] := hnone
  rw [hlast, List.append_nil]
  rfl

theorem judged_quantified {n : Node} {k : Quantifier} {b : Binding} {l : Expr} {p : Option Expr}
    (ih : ∀ c ∈ (quantified n k b l p).children, c.Judged) :
    (quantified n k b l p).Judged := by
  intro ctx s hunseen
  have hchildren : (quantified n k b l p).children = l :: (p.toList ++ (none : Option Expr).toList) := by
    simp [children]
  obtain ⟨hproblems, -, hspecify⟩ :=
    filter_above (e := quantified n k b l p) (q := none) rfl hchildren ih ctx hunseen rfl
  rw [run_check_stages, judge]
  dsimp only
  rw [hproblems]
  generalize ((quantified n k b l p).body ctx).run s = parts at hspecify
  obtain ⟨hnone, habove⟩ := hspecify fun _ => .exact .boolean
  have hclosing : (quantified n k b l p).closing.run parts.state =
      ⟨((Check.specify n fun _ => .exact .boolean).run parts.state).state,
        if p.isNone then [⟨.missingPredicate k, n.span⟩] else []⟩ := by
    have hlast : ((Check.specify n fun _ => .exact .boolean).run parts.state).problems = [] := hnone
    cases p <;>
      simp [closing, Check.all, Check.when, Check.fixed, Check.run, Outcome.andThen] <;> exact hlast
  rw [hclosing]
  exact ⟨rfl, habove.report _⟩

/-- **The run of a check comes to its verdict.** -/
theorem run_judge (e : Expr) : e.Judged := by
  induction e using children_induction with
  | node e ih =>
      cases e with
      | reference n x => exact judged_reference n x
      | comprehension n b l p q => exact judged_comprehension ih
      | quantified n k b l p => exact judged_quantified ih
      | _ => exact judged_of_filter_none rfl (by simp) ih

end Expr
end QueryTyping
