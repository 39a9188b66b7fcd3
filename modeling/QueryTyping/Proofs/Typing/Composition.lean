import QueryTyping.Proofs.TypeSet.Membership
import QueryTyping.Proofs.Typing.Judge
import QueryTyping.Proofs.Typing.Remarks

/-!
# How a verdict is put together

Apart from references, all kinds of nodes come to their verdicts in the same way.  Each child is
judged in the names around the node, or with the bound name if it stands in the binding; the place of
the child in the node expects something of it, or it does not; and what the node itself adds is its
own types and remarks on its form.  No child is expected twice, and what is expected of it is
reported by nothing but a mismatch.

Main statements: `narrow_placed` says this of the arguments of an invocation, `judge_composed` of
every node that is no reference, and `judge_induction` is the induction that it gives: what is true
of references, and of a node whose verdict is composed if it is true of its children, is true of all
trees.  By it, `code_judge` says what kinds of problems a verdict can report at all.
-/

namespace QueryTyping

/-- Whatever stands on the right side of two rows belongs to something on the left. -/
theorem exists_of_forall₂ {α β : Type} {R : α → β → Prop} {as : List α} {bs : List β}
    (h : List.Forall₂ R as bs) : ∀ b ∈ bs, ∃ a, R a b := by
  induction h with
  | nil => exact nofun
  | cons hab _ ih => exact List.forall_mem_cons.mpr ⟨⟨_, hab⟩, ih⟩

namespace Verdict

/-- A verdict in its place: nothing is expected there, or something is, once. -/
inductive Placed (v : Verdict) : Verdict → Prop
  | free : Placed v v
  | expected (possible : TypeSet) (cause : TypeSet → TypeSet → Cause)
      (hcause : ∀ a b, (cause a b).code = Code.typeMismatch.text) :
      Placed v (v.expecting possible cause)

theorem problems_expecting (v : Verdict) (possible : TypeSet) (cause : TypeSet → TypeSet → Cause) :
    (v.expecting possible cause).problems = v.problems ++ v.blame possible cause := rfl

theorem mismatch_code_eq (a b : TypeSet) : (Cause.mismatch a b).code = Code.typeMismatch.text := rfl

theorem code_of_blame {v : Verdict} {possible : TypeSet} {cause : TypeSet → TypeSet → Cause}
    (hcause : ∀ a b, (cause a b).code = Code.typeMismatch.text) {p : Problem}
    (hp : p ∈ v.blame possible cause) : p.code = Code.typeMismatch.text := by
  unfold blame at hp
  split at hp
  · obtain rfl := List.mem_singleton.mp hp
    exact hcause _ _
  · cases hp

/-- **Narrowing places arguments.**  After it each argument is in its place, and what it has reported
is what is expected there. -/
theorem narrow_placed (vs : List Verdict) (alive : List Signature) :
    ∃ placed, List.Forall₂ Placed vs placed ∧
      placed.flatMap infos = (narrow vs alive).parts.flatMap infos ∧
      (placed.flatMap problems).Perm (vs.flatMap problems ++ (narrow vs alive).problems) := by
  induction vs generalizing alive with
  | nil => exact ⟨[], .nil, rfl, .refl _⟩
  | cons v vs ih =>
      cases alive with
      | nil =>
          refine ⟨v :: vs, ?_, rfl, ?_⟩
          · exact List.forall₂_same.mpr fun u _ => .free
          · simp [narrow]
      | cons g gs =>
          let possible := TypeSet.unions ((g :: gs).map Signature.accepted)
          obtain ⟨placed, hplaced, hinfos, hproblems⟩ :=
            ih (((g :: gs).filter fun g => (v.expect possible).types.meets g.accepted).map
              Signature.rest)
          refine ⟨v.expecting possible .mismatch :: placed,
            .cons (.expected possible _ mismatch_code_eq) hplaced, ?_, ?_⟩
          · rw [List.flatMap_cons, hinfos]
            rfl
          · simp only [List.flatMap_cons, problems_expecting, narrow, List.append_assoc]
            refine .append_left _ ?_
            exact (hproblems.append_left _).trans (List.perm_append_comm_assoc _ _ _)

/-- The signatures that remain are some of those there were, with fewer parameters. -/
theorem output_of_alive {vs : List Verdict} {alive : List Signature} {g : Signature}
    (h : g ∈ (narrow vs alive).alive) : ∃ g' ∈ alive, g.output = g'.output := by
  induction vs generalizing alive with
  | nil => exact ⟨g, h, rfl⟩
  | cons v vs ih =>
      cases alive with
      | nil => cases h
      | cons g₀ gs =>
          obtain ⟨g', hg', houtput⟩ := ih h
          obtain ⟨g'', hg'', rfl⟩ := List.mem_map.mp hg'
          exact ⟨g'', (List.mem_filter.mp hg'').1, houtput⟩

end Verdict

/-! An invocation always has some type -/

theorem UnaryOp.output_nonempty {op : UnaryOp} : ∀ g ∈ op.signatures, g.output.isEmpty = false := by
  cases op <;> simp [signatures, Signature.returning]

theorem BinaryOp.output_nonempty {op : BinaryOp} :
    ∀ g ∈ op.signatures, g.output.isEmpty = false := by
  cases op <;> simp [signatures, arithmetic, Signature.returning]

theorem Function.output_nonempty {name : String} {f : Function} (h : lookup? name = some f) :
    ∀ g ∈ f.signatures, g.output.isEmpty = false := by
  have key : ∀ f ∈ catalog.map (·.2), ∀ g ∈ f.signatures, g.output.isEmpty = false := by
    simp [catalog, scalar, aggregating, Signature.returning]
  exact key f (mem_catalog_of_lookup h)

/-- The outputs that remain after narrowing are not empty, if no output is. -/
theorem Verdict.isEmpty_outputs {vs : List Verdict} {alive : List Signature}
    (h : ∀ g ∈ alive, g.output.isEmpty = false) :
    (State.outputs (narrow vs alive).alive).isEmpty = false := by
  cases hremain : (narrow vs alive).alive with
  | nil => exact TypeSet.isEmpty_all
  | cons g gs =>
      have hg : g ∈ (narrow vs alive).alive := hremain ▸ List.mem_cons_self
      obtain ⟨g', hg', houtput⟩ := output_of_alive hg
      have hne : g.output.isEmpty = false := houtput ▸ h g' hg'
      simp [State.outputs, TypeSet.isEmpty_unions, hne]

namespace Expr

/-- The names that a child of a node sees: those around the node, or with them the name that the
node binds. -/
inductive Sees (e : Expr) (env : Env) (binding : TypeSet) : Expr → Env → Prop
  | outside {c : Expr} (hc : c ∈ e.outside) : Sees e env binding c env
  | within {c : Expr} {b : Binding} (hc : c ∈ e.within) (hb : e.bound? = some b) :
      Sees e env binding c (env.bind b.name binding)

theorem Sees.mem_children {e c : Expr} {env inner : Env} {binding : TypeSet}
    (h : e.Sees env binding c inner) : c ∈ e.children := by
  cases h with
  | outside hc => exact mem_children_of_outside hc
  | within hc _ => exact mem_children_of_within hc

/-- A child of a node comes to a verdict, which takes its place in the node. -/
def Part (e : Expr) (env : Env) (binding : TypeSet) (c : Expr) (u : Verdict) : Prop :=
  ∃ ctx inner, e.Sees env binding c inner ∧ (c.judge ctx inner).Placed u

/-- The verdict on a node, put together from its parts.  It has types of its own, which are not empty
unless a child was without types, a name that it binds has the types of `binding`, and it reports
what the parts report and remarks on the form of the node. -/
structure Composed (e : Expr) (env : Env) (binding : TypeSet) (parts : List Verdict)
    (v : Verdict) : Prop where
  span : v.span = e.span
  root : ∃ types, v.root = some ⟨types, none⟩ ∧
    (types.isEmpty = true → ∃ c ∈ e.outside, ∃ ctx, (c.judge ctx env).types.isEmpty = true)
  below : v.below =
    (e.bound?.map fun _ => some ⟨binding, none⟩).toList ++ parts.flatMap Verdict.infos
  problems : ∃ remarks, v.problems.Perm (remarks ++ parts.flatMap Verdict.problems) ∧
    AllFormal remarks

variable {e : Expr} {env : Env} {binding : TypeSet} {parts : List Verdict} {v : Verdict}

/-- Children outside of the binding, each in its place. -/
theorem parts_of_placed {cs : List Expr} (hcs : ∀ c ∈ cs, c ∈ e.outside) (ctx : Context)
    (h : List.Forall₂ Verdict.Placed (judgeAll cs ctx env) parts) :
    List.Forall₂ (e.Part env binding) cs parts := by
  rw [judgeAll_eq, List.forall₂_map_left_iff] at h
  refine ((List.forall₂_and_left cs parts).mpr ⟨hcs, h⟩).imp ?_
  rintro c u ⟨hc, hu⟩
  exact ⟨ctx, env, .outside hc, hu⟩

theorem Composed.report (h : e.Composed env binding parts v) {problems : List Problem}
    (hproblems : AllFormal problems) : e.Composed env binding parts (v.report problems) := by
  obtain ⟨remarks, hperm, hremarks⟩ := h.problems
  refine ⟨h.span, h.root, h.below, problems ++ remarks, ?_, allFormal_append hproblems hremarks⟩
  rw [List.append_assoc]
  exact List.perm_append_comm.trans (hperm.append_left _)

/-- A node that is specified over its parts. -/
theorem composed_above (hbound : e.bound? = none) {remarks : List Problem} {types : TypeSet}
    (htypes : types.isEmpty = true → ∃ c ∈ e.outside, ∃ ctx, (c.judge ctx env).types.isEmpty = true)
    (hremarks : AllFormal remarks) :
    e.Composed env binding parts (.above e.node remarks parts types) where
  span := rfl
  root := ⟨types, rfl, htypes⟩
  below := by simp [hbound, Verdict.above]
  problems := ⟨remarks, .refl _, hremarks⟩

/-- A node that invokes something on its children. -/
theorem composed_invocation (hfilter : e.filter? = none) (ctx : Context) (env : Env)
    {signatures : List Signature} (houtputs : ∀ g ∈ signatures, g.output.isEmpty = false)
    {remarks : List Problem} (hremarks : AllFormal remarks) :
    ∃ parts, List.Forall₂ (e.Part env .all) e.children parts ∧
      e.Composed env .all parts
        (.invocation e.node remarks (judgeAll e.children ctx env) signatures) := by
  obtain ⟨parts, hplaced, hinfos, hproblems⟩ := Verdict.narrow_placed (judgeAll e.children ctx env)
    (signatures.filter (·.arity == (judgeAll e.children ctx env).length))
  have houtside : ∀ c ∈ e.children, c ∈ e.outside := by
    rw [children_eq, within_of_filter_none hfilter, List.append_nil]
    exact fun c hc => hc
  have hbound : e.bound? = none := by rw [bound_eq, hfilter, Option.map_none]
  refine ⟨parts, parts_of_placed houtside ctx hplaced, rfl, ⟨_, rfl, ?_⟩, ?_, remarks, ?_, hremarks⟩
  · intro hempty
    rw [Verdict.isEmpty_outputs fun g hg => houtputs g (List.mem_filter.mp hg).1] at hempty
    cases hempty
  · simp [hbound, Verdict.invocation, hinfos]
  · rw [Verdict.invocation, List.append_assoc]
    exact .append_left _ hproblems.symm

/-- A filter over its parts. -/
theorem composed_filter {b : Binding} (hb : e.bound? = some b) {source : Verdict}
    {predicate projection : Option Verdict} {types : TypeSet} (htypes : types.isEmpty = false) :
    e.Composed env source.elementTypes (source :: (predicate.toList ++ projection.toList))
      (.filter e.node source predicate projection types) where
  span := rfl
  root := by
    refine ⟨types, rfl, fun hempty => ?_⟩
    rw [htypes] at hempty
    cases hempty
  below := by simp [hb, Verdict.filter]
  problems := ⟨[], .refl _, allFormal_nil⟩

/-- The parts of a filter: its list, its predicate and its projection, each in its place. -/
theorem parts_of_filter {b : Binding} {l : Expr} (p q : Option Expr) (hb : e.bound? = some b)
    (houtside : e.outside = [l]) (hwithin : e.within = p.toList ++ q.toList)
    (hchildren : e.children = l :: (p.toList ++ q.toList)) (ctx : Context) (env : Env) :
    let source := (l.judge ctx env).expecting anyList .mismatch
    let inner := env.bind b.name source.elementTypes
    let predicate := (judgeOption p inner).map (·.expecting truth .mismatch)
    List.Forall₂ (e.Part env source.elementTypes) e.children
      (source :: (predicate.toList ++ (judgeOption q inner).toList)) := by
  intro source inner predicate
  have hinside : ∀ c ∈ p.toList ++ q.toList, e.Sees env source.elementTypes c inner := by
    intro c hc
    exact .within (hwithin ▸ hc) hb
  rw [hchildren]
  refine .cons ⟨ctx, env, .outside (by simp [houtside]), ?_⟩ (List.rel_append ?_ ?_)
  · exact .expected anyList _ Verdict.mismatch_code_eq
  · dsimp only [predicate]
    cases p with
    | none => rw [judgeOption]; exact .nil
    | some c =>
        have hc := hinside c (by simp)
        rw [judgeOption]
        exact .cons ⟨.simple, inner, hc, .expected truth _ Verdict.mismatch_code_eq⟩ .nil
  · cases q with
    | none => rw [judgeOption]; exact .nil
    | some c =>
        have hc := hinside c (by simp)
        rw [judgeOption]
        exact .cons ⟨.simple, inner, hc, .free⟩ .nil

/-- A list of children is without types only if a child is. -/
theorem isEmpty_listTypes {cs : List Expr} {ctx : Context}
    (h : (Verdict.listTypes (judgeAll cs ctx env)).isEmpty = true) :
    ∃ c ∈ cs, (c.judge ctx env).types.isEmpty = true := by
  cases cs with
  | nil => simp [judgeAll, Verdict.listTypes, anyList] at h
  | cons c cs =>
      rw [judgeAll, Verdict.listTypes, TypeSet.isEmpty_wrap, TypeSet.isEmpty_joins, List.map_cons,
        List.all_cons, Bool.and_eq_true] at h
      · exact ⟨c, List.mem_cons_self, h.1⟩
      · simp

/-- **How a verdict is put together.**  Each child comes to its verdict and takes its place in the
node, and the verdict on the node is composed of these parts. -/
theorem judge_composed {e : Expr} (href : ∀ n x, e ≠ reference n x) (ctx : Context) (env : Env) :
    ∃ binding parts, binding.isEmpty = false ∧ List.Forall₂ (e.Part env binding) e.children parts ∧
      e.Composed env binding parts (e.judge ctx env) := by
  cases e with
  | reference n x => exact absurd rfl (href n x)
  | literal n v =>
      refine ⟨.all, [], TypeSet.isEmpty_all, .nil, ?_⟩
      rw [judge]
      refine composed_above (e := literal n v) rfl ?_ allFormal_nil
      cases v <;> simp [Literal.types]
  | parameter n x =>
      refine ⟨.all, [], TypeSet.isEmpty_all, .nil, ?_⟩
      rw [judge]
      exact composed_above (e := parameter n x) rfl (by simp) allFormal_nil
  | countStar n =>
      refine ⟨.all, [], TypeSet.isEmpty_all, .nil, ?_⟩
      rw [judge]
      exact composed_above (e := countStar n) rfl (by simp)
        (Check.allFormal_aggregation n "count(*)" ctx)
  | list n es =>
      refine ⟨.all, judgeAll es ctx env, TypeSet.isEmpty_all, ?_, ?_⟩
      · exact parts_of_placed (e := list n es) (fun c hc => hc) ctx
          (List.forall₂_same.mpr fun u _ => .free)
      · rw [judge]
        refine composed_above (e := list n es) rfl (fun h => ?_) allFormal_nil
        obtain ⟨c, hc, hempty⟩ := isEmpty_listTypes h
        exact ⟨c, hc, ctx, hempty⟩
  | property n m k =>
      refine ⟨.all, [(m.judge ctx env).expecting anyMap fun _ actual => .noMap actual],
        TypeSet.isEmpty_all, .cons ⟨ctx, env, .outside (by simp [outside, children]), ?_⟩ .nil, ?_⟩
      · exact .expected anyMap _ fun _ _ => rfl
      · rw [judge]
        exact composed_above (e := property n m k) rfl (by simp) allFormal_nil
  | unary n op c =>
      obtain ⟨parts, hparts, hcomposed⟩ := composed_invocation (e := unary n op c) rfl ctx env
        op.output_nonempty allFormal_nil
      refine ⟨.all, parts, TypeSet.isEmpty_all, hparts, ?_⟩
      rw [judge]
      exact hcomposed
  | binary n op l r =>
      obtain ⟨parts, hparts, hcomposed⟩ := composed_invocation (e := binary n op l r) rfl ctx env
        op.output_nonempty allFormal_nil
      refine ⟨.all, parts, TypeSet.isEmpty_all, hparts, ?_⟩
      rw [judge]
      exact hcomposed
  | call n name distinct es =>
      rw [judge]
      cases hf : Function.lookup? name with
      | none =>
          refine ⟨.all, judgeAll es ctx env, TypeSet.isEmpty_all, ?_, ?_⟩
          · exact parts_of_placed (e := call n name distinct es) (fun c hc => hc) ctx
              (List.forall₂_same.mpr fun u _ => .free)
          · refine Composed.report ?_ (allFormal_singleton rfl)
            exact composed_above (e := call n name distinct es) rfl (by simp) allFormal_nil
      | some f =>
          obtain ⟨parts, hparts, hcomposed⟩ := composed_invocation (e := call n name distinct es) rfl
            (f.argumentContext ctx) env (Function.output_nonempty hf)
            (Check.allFormal_callRules n f distinct es.length ctx)
          exact ⟨.all, parts, TypeSet.isEmpty_all, hparts, hcomposed⟩
  | comprehension n b l p q =>
      have hparts := parts_of_filter (e := comprehension n b l p q) p q rfl rfl rfl rfl ctx env
      refine ⟨_, _, TypeSet.isEmpty_orElse TypeSet.isEmpty_all, hparts, ?_⟩
      rw [judge]
      refine composed_filter (e := comprehension n b l p q) rfl ?_
      exact TypeSet.isEmpty_orElse (TypeSet.isEmpty_covariant _)
  | quantified n k b l p =>
      have hparts := parts_of_filter (e := quantified n k b l p) p none rfl rfl (by simp [within])
        (by simp [children]) ctx env
      refine ⟨_, _, TypeSet.isEmpty_orElse TypeSet.isEmpty_all, hparts, ?_⟩
      rw [judge]
      refine Composed.report ?_ (allFormal_missing k p n.span)
      exact composed_filter (e := quantified n k b l p) rfl (TypeSet.isEmpty_exact _)

/-- The verdict on a reference: what its name means, or nothing. -/
theorem judge_reference (n : Node) (x : String) (ctx : Context) (env : Env) :
    env x = none ∧ (reference n x).judge ctx env = .undefined n x ∨
      ∃ types, env x = some types ∧ (reference n x).judge ctx env = .above n [] [] types := by
  rw [judge]
  cases env x with
  | none => exact .inl ⟨rfl, rfl⟩
  | some types => exact .inr ⟨types, rfl, rfl⟩

/-- **Induction over how verdicts are put together.**  Apart from references every node is composed
of parts, each of them the verdict on a child in its place. -/
theorem judge_induction {motive : Expr → Context → Env → Prop}
    (reference : ∀ n x ctx env, motive (.reference n x) ctx env)
    (composed : ∀ e ctx env binding parts, binding.isEmpty = false →
      List.Forall₂ (e.Part env binding) e.children parts →
      e.Composed env binding parts (e.judge ctx env) →
      (∀ c ∈ e.children, ∀ ctx env, motive c ctx env) → motive e ctx env)
    (e : Expr) (ctx : Context) (env : Env) : motive e ctx env := by
  induction e using children_induction generalizing ctx env with
  | node e ih =>
      by_cases href : ∃ n x, e = .reference n x
      · obtain ⟨n, x, rfl⟩ := href
        exact reference n x ctx env
      · obtain ⟨binding, parts, hbinding, hparts, hcomposed⟩ :=
          judge_composed (fun n x h => href ⟨n, x, h⟩) ctx env
        exact composed e ctx env binding parts hbinding hparts hcomposed ih

theorem span_judge (e : Expr) (ctx : Context) (env : Env) : (e.judge ctx env).span = e.span := by
  induction e, ctx, env using judge_induction with
  | reference n x ctx env =>
      obtain ⟨-, hverdict⟩ | ⟨types, -, hverdict⟩ := judge_reference n x ctx env <;>
        rw [hverdict] <;> rfl
  | composed e ctx env binding parts _ _ hcomposed _ => exact hcomposed.span

/-- **What a verdict reports**: names that are undefined, types that do not fit, and remarks on the
form. -/
theorem code_judge (e : Expr) (ctx : Context) (env : Env) : ∀ p ∈ (e.judge ctx env).problems,
    p.code = Code.undefinedVariable.text ∨ p.code = Code.typeMismatch.text ∨
      p.isFormal = true := by
  induction e, ctx, env using judge_induction with
  | reference n x ctx env =>
      intro p hp
      obtain ⟨-, hverdict⟩ | ⟨types, -, hverdict⟩ := judge_reference n x ctx env
      · rw [hverdict] at hp
        obtain rfl := List.mem_singleton.mp hp
        exact .inl rfl
      · rw [hverdict] at hp
        cases hp
  | composed e ctx env binding parts _ hparts hcomposed ih =>
      obtain ⟨remarks, hperm, hremarks⟩ := hcomposed.problems
      intro p hp
      rcases List.mem_append.mp (hperm.mem_iff.mp hp) with hp | hp
      · exact .inr (.inr (hremarks p hp))
      · obtain ⟨u, hu, hp⟩ := List.mem_flatMap.mp hp
        obtain ⟨c, ctx', inner, hsees, hplaced⟩ := exists_of_forall₂ hparts u hu
        have hchild := ih c hsees.mem_children ctx' inner p
        cases hplaced with
        | free => exact hchild hp
        | expected possible cause hcause =>
            rcases List.mem_append.mp hp with hp | hp
            · exact hchild hp
            · exact .inr (.inl (Verdict.code_of_blame hcause hp))

end Expr
end QueryTyping
