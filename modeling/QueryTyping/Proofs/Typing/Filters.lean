import QueryTyping.Proofs.Typing.Stages

/-!
# Trees of new ids, and the run of a filter

A tree is checked on a state that knows nothing about its ids, which are distinct.  So are its
parts, whatever other parts have been checked before.

Inside of a filter the checks run in a state that has one more scope with one name in it.  As long
as nothing is known about the id of the binding, the declaration cannot fail: the scope is new, and
a node nothing is known about takes any types.

Main statements: `Unseen.child` and `Unseen.of_run` pass on that ids are new,
`declare_push_of_unknown` says that the declaration of a filter succeeds, `symbol_enter` what names
mean inside, and `run_filterBody` how the parts of a filter run one after the other.
-/

namespace QueryTyping

namespace State

/-- The state in a new scope in which one name is declared. -/
def enter (s : State) (b : Binding) (types : TypeSet) : State := s.push.define b types

/-- A name is declared in a new scope without fail. -/
theorem declare_push_of_unknown {s : State} {b : Binding} (h : s.info? b.id = none)
    (types : TypeSet) : s.push.declare b types = .ok (s.enter b types) :=
  declare_of_unknown (s := s.push) rfl h types

@[simp] theorem info_enter (s : State) (b : Binding) (types : TypeSet) (i : NodeId) :
    (s.enter b types).info? i = if i = b.id then some ⟨types, none⟩ else s.info? i :=
  info_define s.push b types i

/-- Inside, the declared name means the new symbol, and every other name what it meant outside. -/
theorem symbol_enter (s : State) (b : Binding) (types : TypeSet) (x : String) :
    (s.enter b types).symbol? x =
      if x = b.name then some ⟨b.name, types, b.id, b.span⟩ else s.symbol? x :=
  symbol_define (s := s.push) rfl types x

end State

namespace Expr

/-- The ids of the tree are distinct, and the state knows nothing about them. -/
structure Unseen (e : Expr) (s : State) : Prop where
  distinct : e.ids.Nodup
  unknown : ∀ i ∈ e.ids, s.info? i = none

namespace Unseen

variable {e c : Expr} {s t : State}

theorem child (h : e.Unseen s) (hc : c ∈ e.children) : c.Unseen s :=
  ⟨nodup_of_mem_children h.distinct hc,
    fun i hi => h.unknown i (mem_ids_of_mem_children hc hi)⟩

theorem of_info_eq (h : e.Unseen s) (heq : ∀ i ∈ e.ids, t.info? i = s.info? i) : e.Unseen t :=
  ⟨h.distinct, fun i hi => (heq i hi).trans (h.unknown i hi)⟩

/-- A check that does not touch the ids of a tree leaves them unknown. -/
theorem of_run {p : Check} (h : e.Unseen s) (hp : ∀ i ∈ e.ids, i ∉ p.touched) :
    e.Unseen (p.run s).state :=
  h.of_info_eq fun i hi => Check.run_info_of_not_touched (hp i hi) s

/-- The id of the root is still unknown when a check has touched only what is below. -/
theorem root_unknown (h : e.Unseen s) {p : Check} (hp : e.id ∉ p.touched) :
    (p.run s).state.info? e.id = none :=
  (Check.run_info_of_not_touched hp s).trans (h.unknown _ (id_mem_ids e))

end Unseen

/-! The states in which the parts of a filter are checked -/

/-- The state after the list of a filter. -/
def afterList (l : Expr) (ctx : Context) (s : State) : State :=
  (((l.check ctx).run s).state.expectTypes l.node anyList .mismatch).state

/-- The state in which the predicate and the projection of a filter are checked. -/
def entered (l : Expr) (b : Binding) (ctx : Context) (s : State) : State :=
  (l.afterList ctx s).enter b (elementTypes l.node (l.afterList ctx s))

/-- The state after the predicate and the projection of a filter, in the scope of its name. -/
def afterInside (l : Expr) (b : Binding) (p q : Option Expr) (ctx : Context) (s : State) : State :=
  ((checkProjection q).run ((checkPredicate p).run (l.entered b ctx s)).state).state

variable {l : Expr} {b : Binding} {p q : Option Expr} {i : NodeId}

theorem info_afterList (hi : i ∉ l.ids) (ctx : Context) (s : State) :
    (l.afterList ctx s).info? i = s.info? i := by
  have hne : i ≠ l.node.id := fun heq => hi (heq ▸ id_mem_ids l)
  rw [afterList, State.state_expectTypes, State.info_expect, if_neg hne, info_run_check hi]

theorem bindingOf_afterList (hi : i ∉ l.ids) (ctx : Context) (s : State) :
    (l.afterList ctx s).bindingOf? i = s.bindingOf? i := by
  rw [afterList, State.state_expectTypes]
  exact bindingOf_run_check hi ctx s

theorem symbol_afterList (l : Expr) (ctx : Context) (s : State) (x : String) :
    (l.afterList ctx s).symbol? x = s.symbol? x := by
  rw [afterList, State.state_expectTypes]
  exact symbol_run_check l ctx s x

/-- What stands inside of a filter is still new when its name is declared. -/
theorem Unseen.entered {c : Expr} {s : State} (h : c.Unseen s) (hl : ∀ i ∈ c.ids, i ∉ l.ids)
    (hb : b.id ∉ c.ids) (ctx : Context) : c.Unseen (l.entered b ctx s) := by
  refine h.of_info_eq fun i hi => ?_
  have hne : i ≠ b.id := fun heq => hb (heq ▸ hi)
  rw [Expr.entered, State.info_enter, if_neg hne, info_afterList (hl i hi)]

/-- What stands inside of a filter writes to its own ids. -/
theorem afterInside_frame (h : ∀ c ∈ p.toList ++ q.toList, i ∉ c.ids) (hne : i ≠ b.id)
    (ctx : Context) (s : State) :
    (l.afterInside b p q ctx s).info? i = (l.afterList ctx s).info? i ∧
      (l.afterInside b p q ctx s).bindingOf? i = (l.afterList ctx s).bindingOf? i := by
  obtain ⟨hinfo, hbinding⟩ := run_parts_frame h (l.entered b ctx s)
  rw [afterInside, hinfo, hbinding, entered, State.info_enter, if_neg hne]
  exact ⟨rfl, rfl⟩

/-- **The run of a filter's parts.**  The list is checked and expected to be a list; then the
predicate and the projection are checked where the name stands for the elements. -/
theorem run_filterBody {s : State} (ctx : Context) (p q : Option Expr)
    (hs : s.info? b.id = none) (hl : b.id ∉ l.ids) :
    (filterBody ctx b l p q).run s =
      let listed := (l.check ctx).run s
      let filtered := (checkPredicate p).run (l.entered b ctx s)
      ⟨(l.afterInside b p q ctx s).pop,
        listed.problems ++ ((listed.state.expectTypes l.node anyList .mismatch).problems ++
          (filtered.problems ++ ((checkProjection q).run filtered.state).problems))⟩ := by
  have hunknown : (l.afterList ctx s).info? b.id = none := (info_afterList hl ctx s).trans hs
  have helements : ∀ s : State, elementTypes l.node s.push = elementTypes l.node s := fun _ => rfl
  have hdeclare := fun types => State.declare_push_of_unknown hunknown types
  simp only [afterList] at hdeclare
  simp only [filterBody, inside, afterInside, entered, afterList, Check.all, Check.run,
    Outcome.andThen, helements, hdeclare, Outcome.ofExcept, List.append_nil, List.nil_append]

end Expr
end QueryTyping
