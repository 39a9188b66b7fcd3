import QueryTyping.Proofs.Check.Frame
import QueryTyping.Proofs.Check.Reports
import QueryTyping.Proofs.Expr.Place
import QueryTyping.Typing

/-!
# The stages of a check

The check of a node has three stages.  The opening only reports: what is wrong with the node can be
seen on the node alone.  The body checks the children, from left to right; a filter checks its list
where it stands and the rest in a scope in which its name is declared.  The closing says what the
node expects of its children and what it is itself.

Main statements: `run_check` says that these three stages are the check, `run_check_stages` how they
run, `mem_ids_of_touched` that a check writes only to ids of its own tree, `scopes_run_check` that it
gives back the scopes that it was given, and `check_frame` what follows for the state after a check.
-/

namespace QueryTyping

/-- The outcomes of three steps do not depend on how they are grouped. -/
theorem Outcome.andThen_assoc (o : Outcome) (f g : State → Outcome) :
    (o.andThen f).andThen g = o.andThen fun s => (f s).andThen g := by
  simp [Outcome.andThen]

@[simp] theorem Outcome.andThen_nothing (o : Outcome) : o.andThen (fun s => ⟨s, []⟩) = o := by
  simp [Outcome.andThen]

namespace State

/-- It is the same to specify a node before a scope is closed or after. -/
theorem specify_pop (s : State) (n : Node) (types : TypeSet) :
    s.pop.specify n types = (s.specify n types).map State.pop := by
  unfold specify
  rw [info_pop]
  cases s.info? n.id with
  | none => rfl
  | some info =>
      dsimp only
      split <;> rfl

end State

namespace Check

/-- All ids that a check may write to. -/
def touched (p : Check) : List NodeId := p.specified ++ p.expected ++ p.resolved

theorem run_info_of_not_touched {p : Check} {i : NodeId} (h : i ∉ p.touched) (s : State) :
    (p.run s).state.info? i = s.info? i := by
  simp only [touched, List.mem_append, not_or] at h
  exact run_info h.1.1 h.1.2 s

theorem run_bindingOf_of_not_touched {p : Check} {i : NodeId} (h : i ∉ p.touched) (s : State) :
    (p.run s).state.bindingOf? i = s.bindingOf? i := by
  simp only [touched, List.mem_append, not_or] at h
  exact run_bindingOf h.2 s

/-- Checks that follow one another, as a function on states. -/
theorem run_all_cons_eq (p : Check) (ps : List Check) :
    (all (p :: ps)).run = fun s => (p.run s).andThen (all ps).run := rfl

theorem run_all_nil_eq : (all []).run = fun s => ⟨s, []⟩ := rfl

/-- What is specified last in a scope may as well be specified after the scope. -/
theorem run_inScope_specify (ps : List Check) (n : Node) {types : State → TypeSet}
    (h : ∀ s, types s.pop = types s) :
    (inScope (all (ps ++ [specify n types]))).run =
      fun s => ((inScope (all ps)).run s).andThen (specify n types).run := by
  funext s
  have hbody : (all (ps ++ [specify n types])).run s.push =
      ((all ps).run s.push).andThen (specify n types).run := by
    rw [run_all_append, run_all_cons_eq, run_all_nil_eq]
    simp
  simp only [run, hbody, Outcome.andThen, h, State.specify_pop]
  cases ((all ps).run s.push).state.specify n (types ((all ps).run s.push).state) <;> rfl

theorem mem_touched {p : Check} {i : NodeId} :
    i ∈ p.touched ↔ i ∈ p.specified ∨ i ∈ p.expected ∨ i ∈ p.resolved := by
  simp [touched]

@[simp] theorem mem_touched_all {ps : List Check} {i : NodeId} :
    i ∈ (all ps).touched ↔ ∃ p ∈ ps, i ∈ p.touched := by
  simp only [mem_touched, specified_all, expected_all, resolved_all, List.mem_flatMap]
  constructor
  · rintro (⟨p, hp, hi⟩ | ⟨p, hp, hi⟩ | ⟨p, hp, hi⟩)
    · exact ⟨p, hp, Or.inl hi⟩
    · exact ⟨p, hp, Or.inr (Or.inl hi)⟩
    · exact ⟨p, hp, Or.inr (Or.inr hi)⟩
  · rintro ⟨p, hp, hi | hi | hi⟩
    · exact Or.inl ⟨p, hp, hi⟩
    · exact Or.inr (Or.inl ⟨p, hp, hi⟩)
    · exact Or.inr (Or.inr ⟨p, hp, hi⟩)

@[simp] theorem touched_done : done.touched = [] := rfl

@[simp] theorem touched_report (p : Problem) : (report p).touched = [] := rfl

@[simp] theorem touched_specify (n : Node) (types : State → TypeSet) :
    (specify n types).touched = [n.id] := rfl

@[simp] theorem touched_expect (n : Node) (possible : TypeSet)
    (cause : TypeSet → TypeSet → Cause) : (expect n possible cause).touched = [n.id] := rfl

@[simp] theorem touched_declare (b : Binding) (types : State → TypeSet) :
    (declare b types).touched = [b.id] := rfl

@[simp] theorem mem_touched_resolve {x : String} {n : Node} {i : NodeId} :
    i ∈ (resolve x n).touched ↔ i = n.id := by
  simp [mem_touched, specified, expected, resolved]

@[simp] theorem mem_touched_invoke {n : Node} {args : List Node} {gs : List Signature}
    {i : NodeId} : i ∈ (invoke n args gs).touched ↔ i = n.id ∨ i ∈ args.map Node.id := by
  simp [mem_touched, specified, expected, resolved]

@[simp] theorem touched_inScope (p : Check) : (inScope p).touched = p.touched := rfl

/-- A check that writes nowhere leaves the tables and the scopes alone. -/
def silent : Check → Bool
  | done | report _ => true
  | andThen p q => p.silent && q.silent
  | specify .. | expect .. | declare .. | resolve .. | invoke .. | inScope _ => false

@[simp] theorem silent_all (ps : List Check) : (all ps).silent = ps.all silent := by
  induction ps with
  | nil => rfl
  | cons p ps ih => simp [all, silent, ih]

/-- A silent check makes its reports, the same in every state, and does not change the state. -/
theorem run_silent {p : Check} (h : p.silent = true) (s : State) : p.run s = ⟨s, p.reports⟩ := by
  induction p generalizing s with
  | done => rfl
  | report p => rfl
  | andThen p q ihp ihq =>
      simp only [silent, Bool.and_eq_true] at h
      rw [run, ihp h.1, Outcome.andThen]
      simp [ihq h.2, reports]
  | _ => cases h

end Check

namespace Expr

/-- The place of the children of a node. -/
def childContext : Expr → Context → Context
  | call _ name _ _, ctx =>
      match Function.lookup? name with
      | some f => f.argumentContext ctx
      | none => ctx
  | _, ctx => ctx

/-- What is checked of a node before its children. -/
def opening : Expr → Context → Check
  | countStar n, ctx => .aggregation n "count(*)" ctx
  | call n name distinct es, ctx =>
      match Function.lookup? name with
      | some f => .callRules n f distinct es.length ctx
      | none => .done
  | _, _ => .done

/-- The check of the predicate and the projection of a filter, where its name is declared. -/
def inside (b : Binding) (source : Expr) (p q : Option Expr) : Check :=
  .all [.declare b (elementTypes source.node), checkPredicate p, checkProjection q]

/-- The check of a filter's parts. -/
def filterBody (ctx : Context) (b : Binding) (source : Expr) (p q : Option Expr) : Check :=
  .all [source.check ctx, .expect source.node anyList .mismatch, .inScope (inside b source p q)]

/-- The check of the children of a node. -/
def body : Expr → Context → Check
  | comprehension _ b s p q, ctx => filterBody ctx b s p q
  | quantified _ _ b s p, ctx => filterBody ctx b s p none
  | e, ctx => checkAll e.children (e.childContext ctx)

/-- What is checked of a node after its children. -/
def closing : Expr → Check
  | literal n v => .fixed n v.types
  | parameter n _ => .fixed n .all
  | reference n x => .resolve x n
  | countStar n => .fixed n (.exact .integer)
  | list n es => .specify n (listTypes (es.map Expr.node))
  | property n m _ => .all [.expect m.node anyMap fun _ actual => .noMap actual, .fixed n .all]
  | unary n op e => .invoke n [e.node] op.signatures
  | binary n op l r => .invoke n [l.node, r.node] op.signatures
  | call n name _ es =>
      match Function.lookup? name with
      | some f => .invoke n (es.map Expr.node) f.signatures
      | none => .all [.report ⟨.unknownFunction name, n.span⟩, .fixed n .all]
  | comprehension n _ s _ q => .specify n (comprehensionTypes s.node (q.map Expr.node))
  | quantified n k _ _ p =>
      .all [.when p.isNone (.report ⟨.missingPredicate k, n.span⟩), .fixed n (.exact .boolean)]

/-- The children of a node that is no filter are checked in a row. -/
theorem body_of_filter_none {e : Expr} (h : e.filter? = none) (ctx : Context) :
    e.body ctx = checkAll e.children (e.childContext ctx) := by
  cases e with
  | comprehension n b l p q => cases h
  | quantified n k b l p => cases h
  | _ => rfl

/-- The parts of a filter: its list stands outside of the binding, and the rest in it. -/
theorem filterBody_of_filter {e : Expr} {f : Filter} (h : e.filter? = some f) (ctx : Context) :
    ∃ b l p q, f = ⟨b, l.node⟩ ∧ e.children = l :: (p.toList ++ q.toList) ∧
      e.body ctx = filterBody ctx b l p q ∧ e.outside = [l] ∧ e.within = p.toList ++ q.toList ∧
      e.bound? = some b := by
  cases e with
  | comprehension n b l p q => cases h; exact ⟨b, l, p, q, rfl, rfl, rfl, rfl, rfl, rfl⟩
  | quantified n k b l p =>
      cases h
      exact ⟨b, l, p, none, rfl, by simp [children], rfl, rfl, by simp [within], rfl⟩
  | _ => cases h

theorem comprehensionTypes_pop (source : Node) (projection : Option Node) (s : State) :
    comprehensionTypes source projection s.pop = comprehensionTypes source projection s := by
  have htypes : ∀ i, s.pop.types i = s.types i := fun i => State.types_congr (State.info_pop s i)
  simp only [comprehensionTypes, htypes]

/-- **The stages of a check.** -/
theorem run_check (e : Expr) (ctx : Context) (s : State) :
    (e.check ctx).run s = (Check.all [e.opening ctx, e.body ctx, e.closing]).run s := by
  cases e with
  | comprehension n b l p q =>
      have hscope := Check.run_inScope_specify
        [.declare b (elementTypes l.node), checkPredicate p, checkProjection q] n
        (comprehensionTypes_pop l.node (q.map Expr.node))
      simp only [List.cons_append, List.nil_append] at hscope
      simp only [check, opening, body, filterBody, inside, closing, Check.run_all_cons_eq,
        Check.run_all_nil_eq, hscope, Outcome.andThen_nothing, Outcome.andThen_assoc]
      simp [Check.run, Outcome.andThen]
  | call n name distinct es =>
      simp only [check, opening, body, children, closing, childContext]
      cases Function.lookup? name <;>
        simp [Check.all, Check.run, Outcome.andThen, Check.callRules]
  | _ =>
      simp [check, opening, body, filterBody, inside, children, closing, childContext, checkAll,
        checkProjection, Check.all, Check.run, Outcome.andThen]

/-- The opening only reports. -/
theorem silent_opening (e : Expr) (ctx : Context) : (e.opening ctx).silent = true := by
  cases e with
  | countStar n => cases ctx <;> rfl
  | call n name distinct es =>
      rw [opening]
      cases Function.lookup? name with
      | none => rfl
      | some f =>
          have hcount : (Check.argumentCount n f es.length).silent = true := by
            unfold Check.argumentCount
            split
            · rfl
            · split <;> rfl
          have hwhen : ∀ c p, Check.silent p = true → (Check.when c p).silent = true := by
            intro c p hp
            cases c with
            | true => exact hp
            | false => rfl
          have haggregation : (Check.aggregation n (f.name ++ "(...)") ctx).silent = true :=
            hwhen _ _ rfl
          simp [Check.callRules, hcount, hwhen _ _ haggregation, hwhen _ (.report _) rfl]
  | _ => rfl

/-- **The run of a check, stage by stage.** -/
theorem run_check_stages (e : Expr) (ctx : Context) (s : State) :
    (e.check ctx).run s =
      let parts := (e.body ctx).run s
      let last := e.closing.run parts.state
      ⟨last.state, (e.opening ctx).reports ++ (parts.problems ++ last.problems)⟩ := by
  rw [run_check]
  simp [Check.all, Check.run, Outcome.andThen, Check.run_silent (silent_opening e ctx)]

theorem touched_of_silent {p : Check} (h : p.silent = true) : p.touched = [] := by
  have htouched : p.specified = [] ∧ p.expected = [] ∧ p.resolved = [] := by
    induction p with
    | done => exact ⟨rfl, rfl, rfl⟩
    | report p => exact ⟨rfl, rfl, rfl⟩
    | andThen p q ihp ihq =>
        simp only [Check.silent, Bool.and_eq_true] at h
        simp [Check.specified, Check.expected, Check.resolved, ihp h.1, ihq h.2]
    | _ => cases h
  simp [Check.touched, htouched]

/-- The closing specifies the node itself and nothing else. -/
theorem specified_closing (e : Expr) : e.closing.specified = [e.id] := by
  cases e with
  | call n name distinct es =>
      rw [closing]
      cases Function.lookup? name <;> rfl
  | quantified n k b s p => cases p <;> rfl
  | _ => rfl

/-- The closing expects something of children only. -/
theorem mem_children_of_expected_closing {e : Expr} {i : NodeId} (h : i ∈ e.closing.expected) :
    ∃ c ∈ e.children, i = c.id := by
  cases e with
  | property n m k =>
      have hi : i = m.node.id := by simpa [closing, Check.expected, Check.fixed] using h
      exact ⟨m, by simp [children], hi⟩
  | unary n op e =>
      have hi : i = e.node.id := by simpa [closing, Check.expected] using h
      exact ⟨e, by simp [children], hi⟩
  | binary n op l r =>
      have hi : i = l.node.id ∨ i = r.node.id := by simpa [closing, Check.expected] using h
      rcases hi with hi | hi
      · exact ⟨l, by simp [children], hi⟩
      · exact ⟨r, by simp [children], hi⟩
  | call n name distinct es =>
      rw [closing] at h
      cases hf : Function.lookup? name with
      | none => rw [hf] at h; cases h
      | some f =>
          rw [hf] at h
          simp only [Check.expected, List.map_map, List.mem_map, Function.comp] at h
          obtain ⟨c, hc, hi⟩ := h
          exact ⟨c, hc, hi.symm⟩
  | quantified n k b s p => cases p <;> cases h
  | _ => cases h

/-- Only the closing of a reference records a reference. -/
theorem resolved_closing {e : Expr} (h : ∀ n x, e ≠ reference n x) : e.closing.resolved = [] := by
  cases e with
  | reference n x => exact absurd rfl (h n x)
  | call n name distinct es =>
      rw [closing]
      cases Function.lookup? name <;> rfl
  | quantified n k b s p => cases p <;> rfl
  | _ => rfl

/-! What a whole check touches -/

theorem mem_touched_checkPredicate {p : Option Expr} {i : NodeId}
    (h : i ∈ (checkPredicate p).touched) :
    ∃ c ∈ p.toList, i ∈ (c.check .simple).touched ∨ i = c.id := by
  cases p with
  | none => simp [checkPredicate] at h
  | some c =>
      have hc : i ∈ (c.check .simple).touched ∨ i = c.node.id := by
        simpa [checkPredicate] using h
      exact ⟨c, by simp, hc⟩

theorem mem_touched_checkProjection {q : Option Expr} {i : NodeId}
    (h : i ∈ (checkProjection q).touched) :
    ∃ c ∈ q.toList, i ∈ (c.check .simple).touched := by
  cases q with
  | none => simp [checkProjection] at h
  | some c => exact ⟨c, by simp, by simpa [checkProjection] using h⟩

theorem mem_touched_checkAll {es : List Expr} {ctx : Context} {i : NodeId}
    (h : i ∈ (checkAll es ctx).touched) : ∃ c ∈ es, i ∈ (c.check ctx).touched := by
  rw [checkAll_eq] at h
  obtain ⟨p, hp, hi⟩ := Check.mem_touched_all.mp h
  obtain ⟨c, hc, rfl⟩ := List.mem_map.mp hp
  exact ⟨c, hc, hi⟩

theorem mem_touched_inside {b : Binding} {source : Expr} {p q : Option Expr} {i : NodeId}
    (h : i ∈ (inside b source p q).touched) :
    i = b.id ∨ ∃ c ∈ p.toList ++ q.toList, i ∈ (c.check .simple).touched ∨ i = c.id := by
  obtain ⟨check, hcheck, hi⟩ := Check.mem_touched_all.mp h
  simp only [List.mem_cons, List.not_mem_nil, or_false] at hcheck
  rcases hcheck with rfl | rfl | rfl
  · exact Or.inl (by simpa using hi)
  · obtain ⟨c, hc, hi⟩ := mem_touched_checkPredicate hi
    exact Or.inr ⟨c, List.mem_append_left _ hc, hi⟩
  · obtain ⟨c, hc, hi⟩ := mem_touched_checkProjection hi
    exact Or.inr ⟨c, List.mem_append_right _ hc, Or.inl hi⟩

theorem mem_touched_filterBody {ctx : Context} {b : Binding} {l : Expr} {p q : Option Expr}
    {i : NodeId} (h : i ∈ (filterBody ctx b l p q).touched) :
    i = b.id ∨
      ∃ c ∈ l :: (p.toList ++ q.toList), ∃ ctx', i ∈ (c.check ctx').touched ∨ i = c.id := by
  obtain ⟨check, hcheck, hi⟩ := Check.mem_touched_all.mp h
  simp only [List.mem_cons, List.not_mem_nil, or_false] at hcheck
  rcases hcheck with rfl | rfl | rfl
  · exact Or.inr ⟨l, List.mem_cons_self, ctx, Or.inl hi⟩
  · have hl : i = l.node.id := by simpa using hi
    exact Or.inr ⟨l, List.mem_cons_self, ctx, Or.inr hl⟩
  · rcases mem_touched_inside hi with hb | ⟨c, hc, hi⟩
    · exact Or.inl hb
    · exact Or.inr ⟨c, List.mem_cons_of_mem _ hc, .simple, hi⟩

/-- What the body of a node touches are ids that its children's checks touch, the ids of the
children themselves, and that of a bound name. -/
theorem mem_touched_body {e : Expr} {ctx : Context} {i : NodeId} (h : i ∈ (e.body ctx).touched) :
    (∃ b, e.bound? = some b ∧ i = b.id) ∨
      ∃ c ∈ e.children, ∃ ctx', i ∈ (c.check ctx').touched ∨ i = c.id := by
  cases e with
  | comprehension n b l p q =>
      rcases mem_touched_filterBody h with hb | hc
      · exact Or.inl ⟨b, rfl, hb⟩
      · exact Or.inr hc
  | quantified n k b l p =>
      rcases mem_touched_filterBody h with hb | hc
      · exact Or.inl ⟨b, rfl, hb⟩
      · exact Or.inr (by simpa [children] using hc)
  | _ =>
      obtain ⟨c, hc, hi⟩ := mem_touched_checkAll h
      exact Or.inr ⟨c, hc, _, Or.inl hi⟩

/-- The closing touches the node itself and its children. -/
theorem mem_touched_closing {e : Expr} {i : NodeId} (h : i ∈ e.closing.touched) :
    i = e.id ∨ ∃ c ∈ e.children, i = c.id := by
  rcases Check.mem_touched.mp h with hi | hi | hi
  · rw [specified_closing] at hi
    exact Or.inl (by simpa using hi)
  · exact Or.inr (mem_children_of_expected_closing hi)
  · cases e with
    | reference n x =>
        have hn : i = n.id := by simpa [closing, Check.resolved] using hi
        exact Or.inl hn
    | _ =>
        rw [resolved_closing (by simp)] at hi
        cases hi

/-- A check touches no more than its stages. -/
theorem mem_touched_stages {e : Expr} {ctx : Context} {i : NodeId}
    (h : i ∈ (e.check ctx).touched) : i ∈ (e.body ctx).touched ∨ i ∈ e.closing.touched := by
  cases e with
  | call n name distinct es =>
      simp only [check, body, closing, children, childContext] at h ⊢
      cases hf : Function.lookup? name with
      | none => simpa [hf, Check.fixed] using h
      | some f =>
          have hrules : (Check.callRules n f distinct es.length ctx).touched = [] := by
            have hsilent := silent_opening (call n name distinct es) ctx
            rw [opening, hf] at hsilent
            exact touched_of_silent hsilent
          simpa [hf, hrules] using h
  | countStar n =>
      have hsilent : (Check.aggregation n "count(*)" ctx).touched = [] :=
        touched_of_silent (silent_opening (countStar n) ctx)
      simpa [check, body, closing, hsilent, Check.fixed] using Or.inr h
  | quantified n k b l p =>
      have hreport : (Check.when p.isNone (.report ⟨.missingPredicate k, n.span⟩)).touched = [] := by
        cases p <;> rfl
      simpa [check, body, filterBody, inside, closing, checkProjection, hreport, Check.fixed,
        or_assoc] using h
  | _ =>
      simpa [check, body, filterBody, inside, closing, children, childContext, checkAll_eq,
        Check.fixed, or_assoc] using h

/-- **A check touches only its own tree.** -/
theorem mem_ids_of_touched {e : Expr} {ctx : Context} {i : NodeId}
    (h : i ∈ (e.check ctx).touched) : i ∈ e.ids := by
  induction e using children_induction generalizing ctx with
  | node e ih =>
      rcases mem_touched_stages h with hi | hi
      · rcases mem_touched_body hi with ⟨b, hb, rfl⟩ | ⟨c, hc, ctx', hi | rfl⟩
        · exact mem_ids_of_mem_lowerIds (bound_mem_lowerIds hb)
        · exact mem_ids_of_mem_children hc (ih c hc hi)
        · exact mem_ids_of_mem_children hc (id_mem_ids c)
      · rcases mem_touched_closing hi with rfl | ⟨c, hc, rfl⟩
        · exact id_mem_ids e
        · exact mem_ids_of_mem_children hc (id_mem_ids c)

theorem info_run_check {e : Expr} {i : NodeId} (hi : i ∉ e.ids) (ctx : Context) (s : State) :
    ((e.check ctx).run s).state.info? i = s.info? i :=
  Check.run_info_of_not_touched (fun h => hi (mem_ids_of_touched h)) s

theorem bindingOf_run_check {e : Expr} {i : NodeId} (hi : i ∉ e.ids) (ctx : Context)
    (s : State) : ((e.check ctx).run s).state.bindingOf? i = s.bindingOf? i :=
  Check.run_bindingOf_of_not_touched (fun h => hi (mem_ids_of_touched h)) s

theorem not_touched_checkPredicate {p : Option Expr} {i : NodeId} (h : ∀ c ∈ p.toList, i ∉ c.ids) :
    i ∉ (checkPredicate p).touched := by
  intro htouched
  obtain ⟨c, hc, hi | rfl⟩ := mem_touched_checkPredicate htouched
  · exact h c hc (mem_ids_of_touched hi)
  · exact h c hc (id_mem_ids c)

theorem not_touched_checkProjection {q : Option Expr} {i : NodeId}
    (h : ∀ c ∈ q.toList, i ∉ c.ids) : i ∉ (checkProjection q).touched := by
  intro htouched
  obtain ⟨c, hc, hi⟩ := mem_touched_checkProjection htouched
  exact h c hc (mem_ids_of_touched hi)

theorem not_touched_checkAll {es : List Expr} {ctx : Context} {i : NodeId}
    (h : ∀ c ∈ es, i ∉ c.ids) : i ∉ (checkAll es ctx).touched := by
  intro htouched
  obtain ⟨c, hc, hi⟩ := mem_touched_checkAll htouched
  exact h c hc (mem_ids_of_touched hi)

/-- The parts of a filter in its binding leave every other id alone. -/
theorem run_parts_frame {p q : Option Expr} {i : NodeId}
    (h : ∀ c ∈ p.toList ++ q.toList, i ∉ c.ids) (s : State) :
    let after := ((checkProjection q).run ((checkPredicate p).run s).state).state
    after.info? i = s.info? i ∧ after.bindingOf? i = s.bindingOf? i := by
  have hp : i ∉ (checkPredicate p).touched :=
    not_touched_checkPredicate fun c hc => h c (List.mem_append_left _ hc)
  have hq : i ∉ (checkProjection q).touched :=
    not_touched_checkProjection fun c hc => h c (List.mem_append_right _ hc)
  constructor
  · rw [Check.run_info_of_not_touched hq, Check.run_info_of_not_touched hp]
  · rw [Check.run_bindingOf_of_not_touched hq, Check.run_bindingOf_of_not_touched hp]

theorem closed_of_silent {p : Check} (h : p.silent = true) : p.closed = true := by
  induction p with
  | done => rfl
  | report p => rfl
  | andThen p q ihp ihq =>
      simp only [Check.silent, Bool.and_eq_true] at h
      simp [Check.closed, ihp h.1, ihq h.2]
  | _ => cases h

/-- A check declares names only in scopes of its own. -/
theorem closed_check (e : Expr) (ctx : Context) : (e.check ctx).closed = true := by
  induction e using children_induction generalizing ctx with
  | node e ih =>
      have hall : ∀ ctx, (checkAll e.children ctx).closed = true := by
        intro ctx
        rw [checkAll_eq, Check.closed_all, List.all_map, List.all_eq_true]
        exact fun c hc => ih c hc ctx
      have hchild : ∀ c ∈ e.children, (c.check ctx).closed = true := fun c hc => ih c hc ctx
      cases e with
      | call n name distinct es =>
          have hopening := closed_of_silent (silent_opening (call n name distinct es) ctx)
          rw [opening] at hopening
          rw [check]
          cases hf : Function.lookup? name with
          | none => simpa [Check.closed, Check.fixed, children] using hall ctx
          | some f =>
              rw [hf] at hopening
              simpa [Check.closed, hopening, children] using hall (f.argumentContext ctx)
      | countStar n =>
          have hopening : (Check.aggregation n "count(*)" ctx).closed = true :=
            closed_of_silent (silent_opening (countStar n) ctx)
          simpa [check, Check.closed, Check.fixed] using hopening
      | list n es => simpa [check, Check.closed, children] using hall ctx
      | quantified n k b l p =>
          have hl := hchild l (by simp [children])
          cases p <;> simp [check, Check.closed, Check.fixed, Check.when, hl]
      | comprehension n b l p q =>
          have hl := hchild l (by simp [children])
          simp [check, Check.closed, hl]
      | _ => simp_all [check, Check.closed, Check.fixed, children]

theorem closed_checkPredicate (p : Option Expr) : (checkPredicate p).closed = true := by
  cases p with
  | none => simp [checkPredicate, Check.closed]
  | some e => simp [checkPredicate, Check.closed, closed_check]

theorem scopes_run_check (e : Expr) (ctx : Context) (s : State) :
    ((e.check ctx).run s).state.scopes = s.scopes :=
  Check.run_scopes (closed_check e ctx) s

theorem symbol_run_check (e : Expr) (ctx : Context) (s : State) (x : String) :
    ((e.check ctx).run s).state.symbol? x = s.symbol? x :=
  Check.run_symbol (closed_check e ctx) s x

/-- **A check touches only its own tree and leaves the scopes as they were.**  Whatever it reports,
and also if ids of the tree clash, all scopes are afterwards what they were before, and for every id
that is not in the tree so are the entry and the recorded reference. -/
theorem check_frame (e : Expr) (ctx : Context) (s : State) :
    let after := ((e.check ctx).run s).state
    after.scopes = s.scopes ∧
      ∀ i, i ∉ e.ids → after.info? i = s.info? i ∧ after.bindingOf? i = s.bindingOf? i := by
  refine ⟨scopes_run_check e ctx s, fun i hi => ⟨?_, ?_⟩⟩
  · exact info_run_check hi ctx s
  · exact bindingOf_run_check hi ctx s

/-- In `[x in [3] | nope(x)]` let the filter, its `x` and the list have one id, and `3` and the
reference another.  The declaration of `x` fails, so the reference resolves to the `x` outside, and
the function is unknown; the scopes and the entry of the `x` outside are as before. -/
theorem check_frame_clashing :
    let e := comprehension ⟨1, .unknown⟩ ⟨1, .unknown, "x"⟩
      (list ⟨1, .unknown⟩ [literal ⟨2, .unknown⟩ (.integer 3)])
      (some (call ⟨3, .unknown⟩ "nope" false [reference ⟨2, .unknown⟩ "x"])) none
    let s := State.initial.define ⟨7, .unknown, "x"⟩ (.exact .integer)
    let outcome := (e.check .simple).run s
    outcome.problems.map (·.code) =
        [Code.conflictingTypes.text, Code.unknownFunction.text] ∧
      outcome.state.bindingOf? 2 = some 7 ∧ 7 ∉ e.ids ∧
      outcome.state.scopes = s.scopes ∧ outcome.state.info? 7 = some ⟨.exact .integer, none⟩ := by
  intro e s outcome
  have houtside : 7 ∉ e.ids := by decide
  obtain ⟨hscopes, hframe⟩ := check_frame e .simple s
  refine ⟨by decide, by decide, houtside, hscopes, ?_⟩
  exact (hframe 7 houtside).1

end Expr
end QueryTyping
