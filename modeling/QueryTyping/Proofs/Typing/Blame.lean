import QueryTyping.Proofs.Expr.Items
import QueryTyping.Proofs.Typing.Composition

/-!
# Who is blamed

A mismatch is reported where an expectation leaves a node without types.  Before that each node has
some type, and at most one thing is expected of it: so at the end the mismatches that were reported
and the nodes without types are the same, one for one.

The items of a tree and the entries of a verdict stand in the same order, and the account is kept
between these two lists: a verdict is in order if they are equally long and the spans of its
mismatches are those of the nodes that are left without types.  It is in order where nothing is
expected of the root yet, and an expectation adds one span to both sides or to none.

Main statements: `judge_types_nonempty` says that a tree has types before anything is expected of
it, `Accounted.placed` and `Accounted.composed` carry the account through a node, and
`mismatches_check` draws it up for a check.
-/

namespace QueryTyping

/-- The problem reports types that do not fit. -/
def Problem.isMismatch (p : Problem) : Bool := p.code == Code.typeMismatch.text

/-- Where types are reported that do not fit. -/
def blamed (problems : List Problem) : List Span :=
  (problems.filter Problem.isMismatch).map Problem.span

theorem blamed_append (ps qs : List Problem) : blamed (ps ++ qs) = blamed ps ++ blamed qs := by
  rw [blamed, List.filter_append, List.map_append]
  rfl

theorem perm_blamed {ps qs : List Problem} (h : ps.Perm qs) : (blamed ps).Perm (blamed qs) :=
  (h.filter _).map _

/-- What is about the form of an expression blames no types. -/
theorem blamed_of_allFormal {ps : List Problem} (h : AllFormal ps) : blamed ps = [] := by
  have hnone : ps.filter Problem.isMismatch = [] := h.filter_eq_nil (c := .typeMismatch) (by decide)
  rw [blamed, hnone, List.map_nil]

/-- The span of a node that is left without types. -/
def Item.emptied? : Item → Option TypeInfo → Option Span
  | node e, some info => if info.actual.isEmpty then some e.span else none
  | node _, none => none
  | bound _, _ => none

/-- The spans of the nodes that the entries leave without types. -/
def emptied (items : List Item) (infos : List (Option TypeInfo)) : List Span :=
  (items.zip infos).filterMap fun p => p.1.emptied? p.2

theorem emptied_cons (it : Item) (items : List Item) (info : Option TypeInfo)
    (infos : List (Option TypeInfo)) :
    emptied (it :: items) (info :: infos) = (it.emptied? info).toList ++ emptied items infos := by
  rw [emptied, List.zip_cons_cons, List.filterMap_cons]
  cases it.emptied? info <;> rfl

theorem emptied_append {items items' : List Item} {infos infos' : List (Option TypeInfo)}
    (h : items.length = infos.length) :
    emptied (items ++ items') (infos ++ infos') = emptied items infos ++ emptied items' infos' := by
  rw [emptied, List.zip_append h, List.filterMap_append]
  rfl

theorem emptied_map (items : List Item) (info : Item → Option TypeInfo) :
    emptied items (items.map info) = items.filterMap fun it => it.emptied? (info it) := by
  induction items with
  | nil => rfl
  | cons it items ih =>
      rw [List.map_cons, emptied_cons, ih, List.filterMap_cons]
      cases it.emptied? (info it) <;> rfl

/-- The nodes that a state leaves without types can be seen in the state. -/
theorem Item.emptied_info (d : Expr) (s : State) :
    (Item.node d).emptied? (s.info? d.id) = if (s.types d.id).isEmpty then some d.span else none := by
  cases hinfo : s.info? d.id with
  | none => simp [emptied?, State.types, hinfo]
  | some info => simp [emptied?, State.types, hinfo]

namespace Expr

/-- The names that an expression reads from its surroundings are not without types there. -/
def NamesTyped (e : Expr) (env : Env) : Prop :=
  ∀ x ∈ e.freeNames, ∀ types, env x = some types → types.isEmpty = false

/-- The account between a tree and a verdict is in order: they are equally long, and what is blamed
are the nodes that are left without types. -/
structure Accounted (e : Expr) (v : Verdict) : Prop where
  length : e.items.length = v.infos.length
  perm : (blamed v.problems).Perm (emptied e.items v.infos)

variable {e c : Expr} {env inner : Env} {binding : TypeSet} {v u : Verdict}

/-- The names that a child reads have types if those of the node have and the bound name has. -/
theorem NamesTyped.child (h : e.NamesTyped env) (hsees : e.Sees env binding c inner)
    (hbinding : binding.isEmpty = false) : c.NamesTyped inner := by
  intro x hx types hinner
  cases hsees with
  | outside hc => exact h x (freeNames_of_outside hc hx) types hinner
  | @within b hc hb =>
      by_cases hxb : x = b.name
      · subst hxb
        obtain rfl : binding = types := by simpa [Env.bind] using hinner
        exact hbinding
      · rw [Env.bind, if_neg hxb] at hinner
        rw [bound_eq, Option.map_eq_some_iff] at hb
        obtain ⟨f, hf, rfl⟩ := hb
        exact h x (freeNames_of_within hf hc hx hxb) types hinner

/-- **A tree has types before anything is expected of it.** -/
theorem judge_types_nonempty (e : Expr) (ctx : Context) {env : Env} (h : e.NamesTyped env) :
    (e.judge ctx env).types.isEmpty = false := by
  induction e, ctx, env using judge_induction with
  | reference n x ctx env =>
      obtain ⟨-, hverdict⟩ | ⟨types, henv, hverdict⟩ := judge_reference n x ctx env
      · rw [hverdict]
        exact TypeSet.isEmpty_all
      · rw [hverdict]
        exact h x (by simp [freeNames_reference]) types henv
  | composed e ctx env binding parts _ _ hcomposed ih =>
      obtain ⟨types, hroot, hinhabited⟩ := hcomposed.root
      have htypes : (e.judge ctx env).types = types := by simp [Verdict.types, hroot, TypeInfo.actual]
      rw [htypes, ← Bool.not_eq_true]
      intro hempty
      obtain ⟨c, hc, ctx', hchild⟩ := hinhabited hempty
      have hnames : c.NamesTyped env := fun x hx => h x (freeNames_of_outside hc hx)
      rw [ih c (mem_children_of_outside hc) ctx' env hnames] at hchild
      cases hchild

/-- The root of a tree is left without types exactly if its verdict has none. -/
theorem emptied_root (e : Expr) (v : Verdict) :
    (Item.node e).emptied? v.root = if v.types.isEmpty then some e.span else none := by
  cases hroot : v.root with
  | none => simp [Item.emptied?, Verdict.types, hroot]
  | some info => simp [Item.emptied?, Verdict.types, hroot]

/-- **The account of a part in its place.**  What is expected there is reported if it leaves the part
without types, which it was not before. -/
theorem Accounted.placed (h : e.Accounted v) (hspan : v.span = e.span)
    (htypes : v.types.isEmpty = false) (hplaced : v.Placed u) : e.Accounted u := by
  cases hplaced with
  | free => exact h
  | expected possible cause hcause =>
      refine ⟨h.length, ?_⟩
      obtain ⟨items, hitems⟩ : ∃ items, e.items = .node e :: items := ⟨_, items_eq e⟩
      have hbefore : emptied e.items v.infos = emptied items v.below := by
        rw [hitems, Verdict.infos, emptied_cons, emptied_root, htypes]
        rfl
      have hblame : blamed (v.blame possible cause) =
          if (v.expect possible).types.isEmpty then [e.span] else [] := by
        unfold Verdict.blame
        split
        · simp [blamed, Problem.isMismatch, Problem.code, hcause, hspan]
        · rfl
      have hafter : emptied e.items (v.expecting possible cause).infos =
          blamed (v.blame possible cause) ++ emptied items v.below := by
        rw [hitems, Verdict.infos, emptied_cons, emptied_root, hblame]
        change (if (v.expect possible).types.isEmpty then some e.span else none).toList ++
          emptied items v.below = _
        split <;> rfl
      rw [Verdict.problems_expecting, blamed_append, hafter, ← hbefore]
      exact List.perm_append_comm.trans (h.perm.append_left _)

/-- The account of parts in a row. -/
theorem accounted_row {cs : List Expr} {parts : List Verdict}
    (h : List.Forall₂ Accounted cs parts) :
    (cs.flatMap items).length = (parts.flatMap Verdict.infos).length ∧
      (blamed (parts.flatMap Verdict.problems)).Perm
        (emptied (cs.flatMap items) (parts.flatMap Verdict.infos)) := by
  induction h with
  | nil => exact ⟨rfl, .refl _⟩
  | cons hc _ ih =>
      obtain ⟨hlength, hperm⟩ := ih
      simp only [List.flatMap_cons, List.length_append, blamed_append]
      refine ⟨by rw [hc.length, hlength], ?_⟩
      rw [emptied_append hc.length]
      exact hc.perm.append hperm

/-- **The account of a node**, from those of its parts: the node itself has types, and its remarks
blame no types. -/
theorem Accounted.composed {parts : List Verdict} (hparts : List.Forall₂ Accounted e.children parts)
    (hcomposed : e.Composed env binding parts v) (htypes : v.types.isEmpty = false) :
    e.Accounted v := by
  obtain ⟨hlength, hperm⟩ := accounted_row hparts
  obtain ⟨remarks, hproblems, hremarks⟩ := hcomposed.problems
  let own := (e.bound?.map Item.bound).toList
  let ownInfos := (e.bound?.map fun _ => some (⟨binding, none⟩ : TypeInfo)).toList
  have hown : own.length = ownInfos.length ∧ emptied own ownInfos = [] := by
    simp only [own, ownInfos]
    cases e.bound? <;> exact ⟨rfl, rfl⟩
  have hitems : e.items = .node e :: (own ++ e.children.flatMap items) := items_eq e
  have hinfos : v.infos = v.root :: (ownInfos ++ parts.flatMap Verdict.infos) := by
    rw [Verdict.infos, hcomposed.below]
  constructor
  · rw [hitems, hinfos]
    simp [hown.1, hlength]
  · rw [hitems, hinfos, emptied_cons, emptied_root, htypes, emptied_append hown.1, hown.2]
    have hblamed := perm_blamed hproblems
    rw [blamed_append, blamed_of_allFormal hremarks, List.nil_append] at hblamed
    exact hblamed.trans hperm

/-- **The account of a verdict.** -/
theorem judge_accounted (e : Expr) (ctx : Context) {env : Env} (h : e.NamesTyped env) :
    e.Accounted (e.judge ctx env) := by
  have htypes := judge_types_nonempty e ctx h
  induction e, ctx, env using judge_induction with
  | reference n x ctx env =>
      obtain ⟨-, hverdict⟩ | ⟨types, -, hverdict⟩ := judge_reference n x ctx env
      · rw [hverdict]
        exact ⟨rfl, .refl _⟩
      · have hitems : (Expr.reference n x).items = [.node (.reference n x)] := rfl
        rw [hverdict] at htypes ⊢
        have hne : types.isEmpty = false := htypes
        refine ⟨rfl, ?_⟩
        simp [hitems, Verdict.infos, Verdict.above, emptied, Item.emptied?, TypeInfo.actual, hne,
          blamed]
  | composed e ctx env binding parts hbinding hparts hcomposed ih =>
      refine .composed (hparts.imp ?_) hcomposed htypes
      rintro c u ⟨ctx', inner, hsees, hplaced⟩
      have hnames := h.child hsees hbinding
      have hchild := judge_types_nonempty c ctx' hnames
      have haccounted := ih c hsees.mem_children ctx' inner hnames hchild
      exact haccounted.placed (span_judge c ctx' inner) hchild hplaced

/-- What the entries of a state leave without types are the nodes that have none in the state. -/
theorem emptied_items (e : Expr) (s : State) :
    emptied e.items (e.ids.map s.info?) =
      (e.nodes.filter fun d => (s.types d.id).isEmpty).map Expr.span := by
  have hown : ∀ d : Expr, d.ownItems.filterMap (fun it => it.emptied? (s.info? it.id)) =
      if (s.types d.id).isEmpty then [d.span] else [] := by
    intro d
    have hbound : ((d.bound?.map Item.bound).toList).filterMap
        (fun it => it.emptied? (s.info? it.id)) = [] := by
      cases d.bound? <;> rfl
    have hid : (Item.node d).id = d.id := rfl
    rw [ownItems, List.filterMap_cons, hbound, hid, Item.emptied_info]
    cases (s.types d.id).isEmpty <;> rfl
  rw [← map_id_items, List.map_map]
  refine (emptied_map e.items _).trans ?_
  rw [items, List.filterMap_flatMap]
  simp only [Function.comp, hown]
  induction e.nodes with
  | nil => rfl
  | cons d ds ih =>
      rw [List.flatMap_cons, ih, List.filter_cons]
      split <;> rfl

/-- **Every emptied type is blamed once.**  If the names that a tree reads are not without types, the
mismatches that its check reports and the nodes that it leaves without types have the same spans, one
for one.  The root is never left without types, and no node is if nothing is reported. -/
theorem mismatches_check {e : Expr} {s : State} (ctx : Context) (hunseen : e.Unseen s)
    (hsymbols : ∀ x ∈ e.dependencies, ∀ symbol, s.symbol? x = some symbol →
      symbol.types.isEmpty = false) :
    let outcome := (e.check ctx).run s
    ((outcome.problems.filter (·.code == Code.typeMismatch.text)).map Problem.span).Perm
        ((e.nodes.filter fun d => (outcome.state.types d.id).isEmpty).map Expr.span) ∧
      (outcome.state.types e.id).isEmpty = false ∧
      (outcome.problems = [] → ∀ d ∈ e.nodes, (outcome.state.types d.id).isEmpty = false) := by
  intro outcome
  have hnames : e.NamesTyped s.env := by
    intro x hx types henv
    obtain ⟨symbol, hsymbol, rfl⟩ := Option.map_eq_some_iff.mp henv
    exact hsymbols x (mem_dependencies_iff.mpr hx) symbol hsymbol
  obtain ⟨hproblems, hshows⟩ := run_judge e ctx s hunseen
  have haccount := (judge_accounted e ctx hnames).perm
  rw [← hproblems, ← hshows.infos, emptied_items] at haccount
  refine ⟨haccount, ?_, fun hnone d hd => ?_⟩
  · rw [hshows.types]
    exact judge_types_nonempty e ctx hnames
  · rw [hnone] at haccount
    have hnobody := List.map_eq_nil_iff.mp haccount.symm.eq_nil
    simpa using List.filter_eq_nil_iff.mp hnobody d hd

/-- In `[x in xs where x | -'a']` with a list of integers `xs`, neither the predicate nor the operand
of the projection fits, and just these two nodes are without types. -/
theorem mismatches_check_comprehension :
    let s := State.initial.enter ⟨9, .unknown, "xs"⟩ (.covariant (.list .integer))
    let e := comprehension ⟨1, ⟨0, 23, 1, 1⟩⟩ ⟨2, .unknown, "x"⟩
      (reference ⟨3, ⟨6, 8, 1, 7⟩⟩ "xs") (some (reference ⟨4, ⟨15, 16, 1, 16⟩⟩ "x"))
      (some (unary ⟨5, ⟨19, 23, 1, 20⟩⟩ .negate (literal ⟨6, ⟨20, 23, 1, 21⟩⟩ (.string "a"))))
    e.Unseen s ∧
      ((e.nodes.filter fun d => (((e.check .simple).run s).state.types d.id).isEmpty).map
        Expr.span).Perm [⟨15, 16, 1, 16⟩, ⟨20, 23, 1, 21⟩] := by
  intro s e
  have hunseen : e.Unseen s := ⟨by decide, by decide⟩
  have hnames : e.freeNames = ["xs"] := by decide
  have hsymbols : ∀ x ∈ e.dependencies, ∀ symbol, s.symbol? x = some symbol →
      symbol.types.isEmpty = false := by
    intro x hx
    rw [mem_dependencies_iff, hnames, List.mem_singleton] at hx
    subst hx
    decide
  have hblamed : (((e.check .simple).run s).problems.filter
      (·.code == Code.typeMismatch.text)).map Problem.span =
        [⟨15, 16, 1, 16⟩, ⟨20, 23, 1, 21⟩] := by decide
  refine ⟨hunseen, ?_⟩
  rw [← hblamed]
  exact (mismatches_check .simple hunseen hsymbols).1.symm

end Expr
end QueryTyping
