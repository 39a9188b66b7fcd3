import QueryTyping.Proofs.Expr.Items
import QueryTyping.Proofs.Typing.Composition

/-!
# What a check leaves untyped

A check of a tree whose ids are new writes an entry for every node and for every name that a node
binds.  The only exception is a reference to a name that nobody has declared, as long as its place
expects nothing of it.  No entry is written twice by specification and no name is declared twice in
one scope, so neither of these conflicts is ever reported.

Main statements: `Filled.placed` and `Filled.composed` say what a place and a node make of this,
`judge_filled` that every verdict is filled, and `entries_check` what follows for a check.
-/

namespace QueryTyping

/-- The problem reports that a name is declared, or an entry specified, against an earlier one. -/
def Problem.isConflict (p : Problem) : Bool :=
  p.code == Code.alreadyDeclared.text || p.code == Code.conflictingTypes.text

theorem Problem.isConflict_of_isFormal {p : Problem} (h : p.isFormal = true) :
    p.isConflict = false := by
  have hdeclared := code_ne_of_isFormal h (c := .alreadyDeclared) (by decide)
  have hconflicting := code_ne_of_isFormal h (c := .conflictingTypes) (by decide)
  simp [isConflict, hdeclared, hconflicting]

/-- What is expected of a place is never reported as a conflict. -/
theorem Verdict.isConflict_blame {v : Verdict} {possible : TypeSet}
    {cause : TypeSet → TypeSet → Cause}
    (hcause : ∀ a b, (cause a b).code = Code.typeMismatch.text) :
    ∀ p ∈ v.blame possible cause, p.isConflict = false := by
  intro p hp
  have hother : Code.typeMismatch.text ≠ Code.alreadyDeclared.text ∧
      Code.typeMismatch.text ≠ Code.conflictingTypes.text := by decide
  simp [Problem.isConflict, code_of_blame hcause hp, hother.1, hother.2]

/-- The item is a free reference of the tree, to a name that means nothing around it. -/
def Item.Unresolved (e : Expr) (env : Env) (it : Item) : Prop :=
  ∃ n x, it = .node (.reference n x) ∧ (n, x) ∈ e.freeReferences ∧ env x = none

namespace Expr

/-- Every item of the tree has an entry in the verdict, unless it is unresolved, and the verdict
reports no conflict. -/
structure Filled (e : Expr) (env : Env) (v : Verdict) : Prop where
  entries : List.Forall₂ (fun it info => info.isSome = true ∨ it.Unresolved e env) e.items v.infos
  problems : ∀ p ∈ v.problems, p.isConflict = false

variable {e c : Expr} {env inner : Env} {binding : TypeSet} {v u : Verdict}

/-- What is unresolved in a child is unresolved in the node: a name that the node binds means
something in its binding. -/
theorem Sees.unresolved (hsees : e.Sees env binding c inner) {it : Item}
    (h : it.Unresolved c inner) : it.Unresolved e env := by
  obtain ⟨n, x, rfl, hfree, hnothing⟩ := h
  refine ⟨n, x, rfl, ?_⟩
  rw [freeReferences_eq, List.mem_append, List.mem_append]
  cases hsees with
  | outside hc => exact ⟨.inr (.inl (List.mem_flatMap.mpr ⟨c, hc, hfree⟩)), hnothing⟩
  | @within b hc hb =>
      by_cases hx : x = b.name
      · simp [Env.bind, hx] at hnothing
      · rw [Env.bind, if_neg hx] at hnothing
        rw [bound_eq, Option.map_eq_some_iff] at hb
        obtain ⟨f, hf, rfl⟩ := hb
        have hother : e.binds x = false := by simpa [binds, hf] using fun h => hx h.symm
        refine ⟨.inr (.inr (List.mem_filter.mpr ⟨List.mem_flatMap.mpr ⟨c, hc, hfree⟩, ?_⟩)), hnothing⟩
        rw [hother]
        rfl

/-- **A place leaves a verdict filled.**  What is expected of an item gives it an entry, even if it
is unresolved. -/
theorem Filled.placed (h : e.Filled env v) (hplaced : v.Placed u) : e.Filled env u := by
  cases hplaced with
  | free => exact h
  | expected possible cause hcause =>
      have hentries := h.entries
      constructor
      · rw [items_eq, ownItems, List.cons_append, Verdict.infos] at hentries ⊢
        cases hentries with
        | cons _ hbelow => exact .cons (.inl rfl) hbelow
      · intro p hp
        rw [Verdict.problems_expecting, List.mem_append] at hp
        rcases hp with hp | hp
        · exact h.problems p hp
        · exact Verdict.isConflict_blame hcause p hp

/-- **A node whose parts are filled is filled.** -/
theorem Filled.composed {parts : List Verdict}
    (hparts : List.Forall₂ (fun c u => ∃ inner, e.Sees env binding c inner ∧ c.Filled inner u)
      e.children parts)
    (hcomposed : e.Composed env binding parts v) : e.Filled env v := by
  obtain ⟨types, hroot, -⟩ := hcomposed.root
  obtain ⟨remarks, hperm, hremarks⟩ := hcomposed.problems
  have hquiet : ∀ u ∈ parts, ∀ p ∈ u.problems, p.isConflict = false := by
    intro u hu
    obtain ⟨c, inner, -, hfilled⟩ := exists_of_forall₂ hparts u hu
    exact hfilled.problems
  constructor
  · rw [items_eq, ownItems, List.cons_append, Verdict.infos, hcomposed.below, hroot]
    refine .cons (.inl rfl) (List.rel_append ?_ ?_)
    · cases e.bound? with
      | none => exact .nil
      | some b => exact .cons (.inl rfl) .nil
    · refine List.rel_flatMap hparts ?_
      rintro c u ⟨inner, hsees, hfilled⟩
      exact hfilled.entries.imp fun it info => Or.imp_right hsees.unresolved
  · intro p hp
    rcases List.mem_append.mp (hperm.mem_iff.mp hp) with hp | hp
    · exact Problem.isConflict_of_isFormal (hremarks p hp)
    · obtain ⟨u, hu, hp⟩ := List.mem_flatMap.mp hp
      exact hquiet u hu p hp

/-- **Every verdict is filled.** -/
theorem judge_filled (e : Expr) (ctx : Context) (env : Env) :
    e.Filled env (e.judge ctx env) := by
  induction e, ctx, env using judge_induction with
  | reference n x ctx env =>
      obtain ⟨hnothing, hverdict⟩ | ⟨types, -, hverdict⟩ := judge_reference n x ctx env
      · have hunresolved : (Item.node (.reference n x)).Unresolved (.reference n x) env :=
          ⟨n, x, rfl, by simp [freeReferences, places, Place.freeReference?], hnothing⟩
        rw [hverdict]
        refine ⟨.cons (.inr hunresolved) .nil, ?_⟩
        intro p hp
        obtain rfl := List.mem_singleton.mp hp
        rfl
      · rw [hverdict]
        exact ⟨.cons (.inl rfl) .nil, by simp [Verdict.above]⟩
  | composed e ctx env binding parts _ hparts hcomposed ih =>
      refine .composed (hparts.imp ?_) hcomposed
      rintro c u ⟨ctx', inner, hsees, hplaced⟩
      have hfilled := ih c hsees.mem_children ctx' inner
      exact ⟨inner, hsees, hfilled.placed hplaced⟩

/-- **Nothing conflicts, and nothing is left untyped.**  A check of a tree whose ids are new reports
no name as declared before and no types as conflicting with earlier ones.  After it each node has an
entry, unless it is a free reference to a name that is not visible where the check starts, and so
has each name that a node binds. -/
theorem entries_check {e : Expr} {s : State} (ctx : Context) (hunseen : e.Unseen s) :
    let outcome := (e.check ctx).run s
    (∀ p ∈ outcome.problems,
        p.code ≠ Code.alreadyDeclared.text ∧ p.code ≠ Code.conflictingTypes.text) ∧
      (∀ d ∈ e.nodes, (outcome.state.info? d.id).isSome = true ∨
        ∃ n x, d = reference n x ∧ (n, x) ∈ e.freeReferences ∧ s.symbol? x = none) ∧
      ∀ d ∈ e.nodes, ∀ b, d.bound? = some b → (outcome.state.info? b.id).isSome = true := by
  intro outcome
  obtain ⟨hproblems, hshows⟩ := run_judge e ctx s hunseen
  obtain ⟨hentries, hquiet⟩ := judge_filled e ctx s.env
  rw [← hproblems] at hquiet
  -- Both the entries that a check shows and the items of the tree stand in the order of the ids.
  have hitems : ∀ it ∈ e.items,
      (outcome.state.info? it.id).isSome = true ∨ it.Unresolved e s.env := by
    rw [← hshows.infos, ← map_id_items, List.map_map, List.forall₂_map_right_iff,
      List.forall₂_same] at hentries
    exact hentries
  refine ⟨fun p hp => ?_, fun d hd => ?_, fun d hd b hb => ?_⟩
  · simpa [Problem.isConflict] using hquiet p hp
  · refine (hitems _ (node_mem_items.mpr hd)).imp_right ?_
    rintro ⟨n, x, heq, hfree, hnothing⟩
    exact ⟨n, x, Item.node.inj heq, hfree, Option.map_eq_none_iff.mp hnothing⟩
  · rcases hitems _ (bound_mem_items hd hb) with hentry | ⟨n, x, heq, -⟩
    · exact hentry
    · cases heq

/-- In `[x in xs | x | y]`, where neither `xs` nor `y` is declared, only `y` is left without an entry:
a list is expected in the place of `xs`. -/
theorem entries_check_comprehension :
    let e := comprehension ⟨1, .unknown⟩ ⟨2, .unknown, "x"⟩ (reference ⟨3, .unknown⟩ "xs")
      (some (reference ⟨4, .unknown⟩ "x")) (some (reference ⟨5, .unknown⟩ "y"))
    let outcome := (e.check .simple).run .initial
    e.Unseen .initial ∧
      (∀ p ∈ outcome.problems,
        p.code ≠ Code.alreadyDeclared.text ∧ p.code ≠ Code.conflictingTypes.text) ∧
      (outcome.state.info? 2).isSome = true ∧
      ∀ d ∈ e.nodes, (outcome.state.info? d.id).isSome = true ∨ d.id = 5 := by
  intro e outcome
  have hunseen : e.Unseen .initial := ⟨by decide, by decide⟩
  have hfree : e.freeReferences = [(⟨3, .unknown⟩, "xs"), (⟨5, .unknown⟩, "y")] := by decide
  obtain ⟨hquiet, hnodes, hbound⟩ := entries_check (e := e) .simple hunseen
  have hroot : e ∈ e.nodes := by rw [nodes_eq]; exact List.mem_cons_self
  refine ⟨hunseen, hquiet, hbound e hroot _ rfl, fun d hd => ?_⟩
  rcases hnodes d hd with hentry | ⟨n, x, rfl, hmem, -⟩
  · exact .inl hentry
  · rw [hfree, List.mem_cons, List.mem_singleton, Prod.mk.injEq, Prod.mk.injEq] at hmem
    rcases hmem with ⟨rfl, rfl⟩ | ⟨rfl, -⟩
    · left
      decide
    · right
      rfl

end Expr
end QueryTyping
