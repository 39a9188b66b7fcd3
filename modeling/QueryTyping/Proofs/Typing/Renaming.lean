import QueryTyping.Proofs.Check.Scopes
import QueryTyping.Proofs.Expr.Renaming
import QueryTyping.Proofs.Typing.Filters

/-!
# Bound names do not matter

Two trees that are matched are checked on one state, but each in scopes of its own.  What names mean
in the two is the same for names that are paired, and a name that is undefined is paired with itself
only, because it is reported as it is written.  Then the two checks go hand in hand: they report the
same problems and write the same entries, and they differ in nothing but the scopes they were given.

Inside of two filters each scope gets the name of its own filter, and these mean the same.  Names of
references are the only thing that a check looks up in a scope, and the declaration of a filter's
name is the only thing that changes it.

Main statements: `Agrees.enter` is the step into two filters, `simulated` the comparison of two runs,
and `check_rebound` what it says about a tree in which one filter is renamed.
-/

namespace QueryTyping

/-- What a name means: its types and its binding. -/
def Symbol.meaning (m : Symbol) : TypeSet × NodeId := (m.types, m.binding)

/-- Names that are paired mean the same, in the scopes of the state and in the other scopes.  If the
names are two, they mean something. -/
def Agrees (R : Pairing) (s : State) (sc : Scopes) : Prop :=
  ∀ z z', R z z' →
    (sc.find? z').map Symbol.meaning = (s.symbol? z).map Symbol.meaning ∧
      (z = z' ∨ (s.symbol? z).isSome = true)

/-- The scopes inside of a filter. -/
def Scopes.enter (sc : Scopes) (b : Binding) (types : TypeSet) : Scopes :=
  sc.push.add ⟨b.name, types, b.id, b.span⟩

variable {R : Pairing} {s : State} {sc : Scopes}

theorem Agrees.of_symbol_eq {t : State} (h : Agrees R s sc)
    (heq : ∀ x, t.symbol? x = s.symbol? x) : Agrees R t sc := by
  intro z z' hpaired
  rw [heq]
  exact h z z' hpaired

theorem agrees_self (s : State) : Agrees Eq s s.scopes := by
  intro z z' heq
  subst heq
  exact ⟨rfl, .inl rfl⟩

/-- **Into two filters.**  If the scopes agree outside of two filters, they agree inside. -/
theorem Agrees.enter (h : Agrees R s sc) (b : Binding) (y : String) (types : TypeSet) :
    Agrees (R.bind b.name y) (s.enter b types) (sc.enter { b with name := y } types) := by
  intro z z' hpaired
  have hfind : ∀ x, (sc.enter { b with name := y } types).find? x =
      if x = y then some ⟨y, types, b.id, b.span⟩ else sc.find? x :=
    fun x => Scopes.find_add (s := sc.push) rfl x
  rw [hfind, State.symbol_enter]
  rcases hpaired with ⟨hz, hz'⟩ | ⟨hz, hz', hpaired⟩
  · rw [if_pos hz, if_pos hz']
    exact ⟨rfl, .inr rfl⟩
  · rw [if_neg hz, if_neg hz']
    exact h z z' hpaired

/-- References whose names are paired are resolved to the same. -/
theorem resolve_matched (h : Agrees R s sc) {x x' : String} (hx : R x x') (n : Node) :
    (Check.resolve x' n).run (s.inScopes sc) = ((Check.resolve x n).run s).inScopes sc := by
  obtain ⟨hmeaning, hdefined⟩ := h x x' hx
  simp only [Check.run, State.resolve, State.symbol_inScopes]
  cases hs : s.symbol? x with
  | none =>
      have hsame : x = x' := by
        rcases hdefined with hsame | hsome
        · exact hsame
        · rw [hs] at hsome
          cases hsome
      have hnone : sc.find? x' = none := by
        rw [hs] at hmeaning
        exact Option.map_eq_none_iff.mp hmeaning
      rw [hnone, hsame]
      rfl
  | some m =>
      rw [hs] at hmeaning
      obtain ⟨m', hm', heq⟩ := Option.map_eq_some_iff.mp hmeaning
      have htypes : m'.types = m.types := congrArg Prod.fst heq
      have hbinding : m'.binding = m.binding := congrArg Prod.snd heq
      rw [hm']
      dsimp only
      rw [htypes, hbinding, State.specify_inScopes]
      cases s.specify n m.types <;> rfl

namespace Expr

/-- Apart from references, no node asks for names once its children are checked. -/
theorem nameless_closing {e : Expr} (href : ∀ n x, e ≠ reference n x) : e.closing.Nameless := by
  have hfixed : ∀ n types, (Check.fixed n types).Nameless := fun n types _ _ => rfl
  cases e with
  | reference n x => exact absurd rfl (href n x)
  | property n m k => exact ⟨trivial, hfixed _ _, trivial⟩
  | list n es =>
      intro s sc
      cases es <;> rfl
  | call n name distinct es =>
      rw [closing]
      cases Function.lookup? name with
      | none => exact ⟨trivial, hfixed _ _, trivial⟩
      | some f => trivial
  | comprehension n b l p q =>
      intro s sc
      cases q <;> rfl
  | quantified n k b l p => cases p <;> exact ⟨trivial, hfixed _ _, trivial⟩
  | unary n op e => trivial
  | binary n op l r => trivial
  | _ => exact hfixed _ _

theorem map_node_matched {cs cs' : List Expr} (h : List.Forall₂ (Matched R) cs cs') :
    cs'.map node = cs.map node := by
  induction h with
  | nil => rfl
  | cons hc _ ih => rw [List.map_cons, List.map_cons, hc.node_eq, ih]

theorem matchedOption_map_node {p p' : Option Expr} (h : MatchedOption R p p') :
    p'.map node = p.map node := by
  cases p with
  | none =>
      rw [MatchedOption] at h
      rw [h]
  | some c =>
      obtain ⟨c', rfl, hc⟩ := h
      rw [Option.map_some, Option.map_some, hc.node_eq]

theorem matchedOption_isNone {p p' : Option Expr} (h : MatchedOption R p p') :
    p'.isNone = p.isNone := by
  have hnodes := matchedOption_map_node h
  rw [← Option.isNone_map (f := node), hnodes, Option.isNone_map]

/-- What is checked of a node alone is the same for trees that are matched. -/
theorem Matched.stages {e e' : Expr} (h : e.Matched R e') (href : ∀ n x, e ≠ reference n x)
    (ctx : Context) :
    e'.opening ctx = e.opening ctx ∧ e'.childContext ctx = e.childContext ctx ∧
      e'.closing = e.closing := by
  cases e with
  | reference n x => exact absurd rfl (href n x)
  | list n es =>
      obtain ⟨es', rfl, hes⟩ := h
      exact ⟨rfl, rfl, by rw [closing, closing, map_node_matched (matchedAll_iff.mp hes)]⟩
  | call n name distinct es =>
      obtain ⟨es', rfl, hes⟩ := h
      have hall := matchedAll_iff.mp hes
      refine ⟨?_, rfl, ?_⟩
      · rw [opening, opening, hall.length_eq]
      · rw [closing, closing, map_node_matched hall]
  | property n m k =>
      obtain ⟨m', rfl, hm⟩ := h
      exact ⟨rfl, rfl, by rw [closing, closing, hm.node_eq]⟩
  | unary n op c =>
      obtain ⟨c', rfl, hc⟩ := h
      exact ⟨rfl, rfl, by rw [closing, closing, hc.node_eq]⟩
  | binary n op l r =>
      obtain ⟨l', r', rfl, hl, hr⟩ := h
      exact ⟨rfl, rfl, by rw [closing, closing, hl.node_eq, hr.node_eq]⟩
  | comprehension n b l p q =>
      obtain ⟨y, l', p', q', rfl, hl, -, hq⟩ := h
      exact ⟨rfl, rfl, by rw [closing, closing, hl.node_eq, matchedOption_map_node hq]⟩
  | quantified n k b l p =>
      obtain ⟨y, l', p', rfl, -, hp⟩ := h
      exact ⟨rfl, rfl, by rw [closing, closing, matchedOption_isNone hp]⟩
  | _ =>
      rw [Matched] at h
      rw [h]
      exact ⟨rfl, rfl, rfl⟩

/-- The check of a tree of new ids, and that of a tree that is matched with it, come to the same in
scopes that agree. -/
def Simulated (e : Expr) : Prop :=
  ∀ (R : Pairing) (e' : Expr) (ctx : Context) (s : State) (sc : Scopes),
    e.Matched R e' → e.Unseen s → Agrees R s sc →
      (e'.check ctx).run (s.inScopes sc) = ((e.check ctx).run s).inScopes sc

/-- Trees in a row. -/
theorem run_checkAll_matched {cs cs' : List Expr} (ih : ∀ c ∈ cs, c.Simulated)
    (h : List.Forall₂ (Matched R) cs cs') (ctx : Context) (hnodup : (cs.flatMap ids).Nodup)
    (hunseen : ∀ c ∈ cs, c.Unseen s) (hagrees : Agrees R s sc) :
    (checkAll cs' ctx).run (s.inScopes sc) = ((checkAll cs ctx).run s).inScopes sc := by
  induction h generalizing s with
  | nil => rfl
  | @cons c c' cs cs' hc _ ihs =>
      obtain ⟨-, hrest, hapart⟩ := nodup_flatMap_ids_cons.mp hnodup
      have hforeign : ∀ d ∈ cs, ∀ i ∈ d.ids, i ∉ (c.check ctx).touched :=
        fun d hd i hi htouched => hapart d hd i (mem_ids_of_touched htouched) hi
      have hhead := ih c List.mem_cons_self R c' ctx s sc hc (hunseen c List.mem_cons_self) hagrees
      rw [checkAll, checkAll, Check.run, Check.run, hhead]
      apply Outcome.andThen_inScopes
      apply ihs (fun d hd => ih d (List.mem_cons_of_mem _ hd)) hrest
      · intro d hd
        exact (hunseen d (List.mem_cons_of_mem _ hd)).of_run (hforeign d hd)
      · exact hagrees.of_symbol_eq (symbol_run_check c ctx s)

/-- The predicates of two filters. -/
theorem run_checkPredicate_matched {p p' : Option Expr} (ih : ∀ c ∈ p.toList, c.Simulated)
    (h : MatchedOption R p p') (hunseen : ∀ c ∈ p.toList, c.Unseen s) (hagrees : Agrees R s sc) :
    (checkPredicate p').run (s.inScopes sc) = ((checkPredicate p).run s).inScopes sc := by
  cases p with
  | none =>
      rw [MatchedOption] at h
      rw [h]
      rfl
  | some c =>
      obtain ⟨c', rfl, hc⟩ := h
      have hrun := ih c (by simp) R c' .simple s sc hc (hunseen c (by simp)) hagrees
      rw [checkPredicate, checkPredicate, Check.run_all_cons, Check.run_all_cons, hrun, hc.node_eq]
      apply Outcome.andThen_inScopes
      exact Check.run_inScopes (p := .all [.expect c.node truth .mismatch]) ⟨trivial, trivial⟩ _ sc

/-- The projections of two filters. -/
theorem run_checkProjection_matched {q q' : Option Expr} (ih : ∀ c ∈ q.toList, c.Simulated)
    (h : MatchedOption R q q') (hunseen : ∀ c ∈ q.toList, c.Unseen s) (hagrees : Agrees R s sc) :
    (checkProjection q').run (s.inScopes sc) = ((checkProjection q).run s).inScopes sc := by
  cases q with
  | none =>
      rw [MatchedOption] at h
      rw [h]
      rfl
  | some c =>
      obtain ⟨c', rfl, hc⟩ := h
      rw [checkProjection, checkProjection]
      exact ih c (by simp) R c' .simple s sc hc (hunseen c (by simp)) hagrees

/-- The predicates and the projections of two filters, one after the other. -/
theorem run_inside_matched {p p' q q' : Option Expr}
    (ih : ∀ c ∈ p.toList ++ q.toList, c.Simulated) (hp : MatchedOption R p p')
    (hq : MatchedOption R q q') (hnodup : ((p.toList ++ q.toList).flatMap ids).Nodup)
    (hunseen : ∀ c ∈ p.toList ++ q.toList, c.Unseen s) (hagrees : Agrees R s sc) :
    (checkPredicate p').run (s.inScopes sc) = ((checkPredicate p).run s).inScopes sc ∧
      (checkProjection q').run ((checkPredicate p').run (s.inScopes sc)).state =
        ((checkProjection q).run ((checkPredicate p).run s).state).inScopes sc := by
  rw [List.flatMap_append, List.nodup_append] at hnodup
  obtain ⟨-, -, hdisjoint⟩ := hnodup
  have hforeign : ∀ d ∈ q.toList, ∀ i ∈ d.ids, i ∉ (checkPredicate p).touched := by
    intro d hd i hi
    refine not_touched_checkPredicate fun c hc hic => ?_
    exact hdisjoint i (List.mem_flatMap.mpr ⟨c, hc, hic⟩) i (List.mem_flatMap.mpr ⟨d, hd, hi⟩) rfl
  have hpredicate := run_checkPredicate_matched (fun c hc => ih c (List.mem_append_left _ hc)) hp
    (fun c hc => hunseen c (List.mem_append_left _ hc)) hagrees
  refine ⟨hpredicate, ?_⟩
  rw [hpredicate, Outcome.state_inScopes]
  apply run_checkProjection_matched (fun c hc => ih c (List.mem_append_right _ hc)) hq
  · intro c hc
    exact (hunseen c (List.mem_append_right _ hc)).of_run (hforeign c hc)
  · exact hagrees.of_symbol_eq (Check.run_symbol (closed_checkPredicate p) s)

/-- The lists of two filters. -/
theorem afterList_matched {l l' : Expr} (ih : l.Simulated) (hl : l.Matched R l') (ctx : Context)
    (hunseen : l.Unseen s) (hagrees : Agrees R s sc) :
    (l'.check ctx).run (s.inScopes sc) = ((l.check ctx).run s).inScopes sc ∧
      l'.afterList ctx (s.inScopes sc) = (l.afterList ctx s).inScopes sc := by
  have hlist := ih R l' ctx s sc hl hunseen hagrees
  refine ⟨hlist, ?_⟩
  rw [afterList, hlist, hl.node_eq, Outcome.state_inScopes, State.expectTypes_inScopes]
  rfl

/-- **The parts of two filters.**  Both are entered with the types of the elements of their lists,
which are the same. -/
theorem run_filterBody_matched {e : Expr} {b : Binding} {l l' : Expr} {p p' q q' : Option Expr}
    {y : String} (hbound : e.bound? = some b) (hchildren : e.children = l :: (p.toList ++ q.toList))
    (ih : ∀ c ∈ e.children, c.Simulated) (hl : l.Matched R l')
    (hp : MatchedOption (R.bind b.name y) p p') (hq : MatchedOption (R.bind b.name y) q q')
    (ctx : Context) (hunseen : e.Unseen s) (hagrees : Agrees R s sc) :
    (filterBody ctx { b with name := y } l' p' q').run (s.inScopes sc) =
      ((filterBody ctx b l p q).run s).inScopes sc := by
  let b' : Binding := { b with name := y }
  have hbinding : ∀ c ∈ e.children, b.id ∉ c.ids :=
    fun c hc => bound_not_mem_child hunseen.distinct hbound hc
  have hnew : ∀ c ∈ e.children, c.Unseen s := fun c hc => hunseen.child hc
  have hs : s.info? b.id = none :=
    hunseen.unknown _ (mem_ids_of_mem_lowerIds (bound_mem_lowerIds hbound))
  have hnodup := nodup_children hunseen.distinct
  rw [hchildren] at ih hbinding hnew hnodup
  obtain ⟨-, hparts, hapart⟩ := nodup_flatMap_ids_cons.mp hnodup
  have hmem : ∀ c ∈ p.toList ++ q.toList, c ∈ l :: (p.toList ++ q.toList) :=
    fun c hc => List.mem_cons_of_mem _ hc
  have hlb : b.id ∉ l.ids := hbinding l List.mem_cons_self
  have hlb' : b'.id ∉ l'.ids := by
    rw [hl.ids_eq]
    exact hlb
  obtain ⟨hlist, hafter⟩ :=
    afterList_matched (ih l List.mem_cons_self) hl ctx (hnew l List.mem_cons_self) hagrees
  let types := elementTypes l.node (l.afterList ctx s)
  let inner := sc.enter b' types
  have hentered : l'.entered b' ctx (s.inScopes sc) = (l.entered b ctx s).inScopes inner := by
    rw [entered, entered, hafter, hl.node_eq]
    rfl
  have hagrees' : Agrees (R.bind b.name y) (l.entered b ctx s) inner :=
    (hagrees.of_symbol_eq (symbol_afterList l ctx s)).enter b y types
  have hunseen' : ∀ c ∈ p.toList ++ q.toList, c.Unseen (l.entered b ctx s) := fun c hc =>
    (hnew c (hmem c hc)).entered (fun i hi hil => hapart c hc i hil hi) (hbinding c (hmem c hc)) ctx
  obtain ⟨hpredicate, hprojection⟩ :=
    run_inside_matched (fun c hc => ih c (hmem c hc)) hp hq hparts hunseen' hagrees'
  have hinside : l'.afterInside b' p' q' ctx (s.inScopes sc) =
      (l.afterInside b p q ctx s).inScopes inner := by
    rw [afterInside, hentered, hprojection]
    rfl
  rw [run_filterBody ctx p q hs hlb, run_filterBody (b := b') (s := s.inScopes sc) ctx p' q' hs hlb']
  dsimp only
  rw [hinside, hentered, hprojection, hpredicate, hlist, hl.node_eq, Outcome.state_inScopes,
    State.expectTypes_inScopes]
  rfl

/-- The parts of two trees. -/
theorem run_body_matched {e e' : Expr} (h : e.Matched R e') (href : ∀ n x, e ≠ reference n x)
    (ih : ∀ c ∈ e.children, c.Simulated) (ctx : Context) (hunseen : e.Unseen s)
    (hagrees : Agrees R s sc) :
    (e'.body ctx).run (s.inScopes sc) = ((e.body ctx).run s).inScopes sc := by
  cases hf : e.filter? with
  | none =>
      obtain ⟨hf', -, hchildren⟩ := h.of_filter_none hf href
      rw [body_of_filter_none hf, body_of_filter_none hf', (h.stages href ctx).2.1]
      exact run_checkAll_matched ih hchildren _ (nodup_children hunseen.distinct)
        (fun c hc => hunseen.child hc) hagrees
  | some f =>
      cases e with
      | comprehension n b l p q =>
          obtain ⟨y, l', p', q', rfl, hl, hp, hq⟩ := h
          exact run_filterBody_matched rfl rfl ih hl hp hq ctx hunseen hagrees
      | quantified n k b l p =>
          obtain ⟨y, l', p', rfl, hl, hp⟩ := h
          have hchildren : (quantified n k b l p).children =
              l :: (p.toList ++ (none : Option Expr).toList) := by simp [children]
          exact run_filterBody_matched (e := quantified n k b l p) (q := none) rfl hchildren ih hl hp
            rfl ctx hunseen hagrees
      | _ => cases hf

/-- **Trees that are matched are checked alike.** -/
theorem simulated (e : Expr) : e.Simulated := by
  induction e using children_induction with
  | node e ih =>
      intro R e' ctx s sc h hunseen hagrees
      by_cases href : ∃ n x, e = reference n x
      · obtain ⟨n, x, rfl⟩ := href
        obtain ⟨x', rfl, hx⟩ := h
        rw [check, check]
        exact resolve_matched hagrees hx n
      have hnot : ∀ n x, e ≠ reference n x := fun n x heq => href ⟨n, x, heq⟩
      obtain ⟨hopening, -, hclosing⟩ := h.stages hnot ctx
      have hbody := run_body_matched h hnot ih ctx hunseen hagrees
      have hlast := Check.run_inScopes (nameless_closing hnot) ((e.body ctx).run s).state sc
      have hstate : ((e.body ctx).run s).inScopes sc =
          ⟨((e.body ctx).run s).state.inScopes sc, ((e.body ctx).run s).problems⟩ := rfl
      rw [run_check_stages, run_check_stages]
      dsimp only
      rw [hbody, hopening, hclosing, hstate, hlast]
      rfl

/-- **Bound names do not matter.**  Replace the name that one filter of a tree binds, together with
the references that are bound to it, by a name that is not used where it would be bound.  The tree
reads the same names from its surroundings, and on a state that knows nothing about its ids, which
are distinct, its check reports the same problems in the same order and ends in the same state. -/
theorem check_rebound {e e' : Expr} (h : Rebound e e') :
    e'.dependencies = e.dependencies ∧
      ∀ ctx s, e.Unseen s → (e'.check ctx).run s = (e.check ctx).run s := by
  have hmatched : e.Matched Eq e' := h.matched
  constructor
  · have hnames : e.freeNames = e'.freeNames := by
      have hpaired := hmatched.freeNames
      rwa [List.forall₂_eq_eq_eq] at hpaired
    apply NameSet.ext
    intro x
    rw [mem_dependencies_iff, mem_dependencies_iff, hnames]
  · intro ctx s hunseen
    have hrun := simulated e Eq e' ctx s s.scopes hmatched hunseen (agrees_self s)
    have hscopes := scopes_run_check e ctx s
    rw [State.inScopes_scopes] at hrun
    rw [hrun, Outcome.inScopes, ← hscopes, State.inScopes_scopes]

/-- In `[[x in x where any(x in x where x) | x], y]` let the outer filter bind `y` instead of `x`.
This hides the `y` that is declared around the tree, so the `y` behind the filter must not be taken
for the filter's; the list of the outer filter and the predicate of the inner one stay as they
are. -/
theorem check_rebound_shadowing :
    let n := fun i : NodeId => (⟨i, .unknown⟩ : Node)
    let inner := fun x => quantified (n 5) .any ⟨6, .unknown, "x"⟩ (reference (n 7) x)
      (some (reference (n 8) "x"))
    let e := list (n 1) [comprehension (n 2) ⟨3, .unknown, "x"⟩ (reference (n 4) "x")
      (some (inner "x")) (some (reference (n 9) "x")), reference (n 10) "y"]
    let e' := list (n 1) [comprehension (n 2) ⟨3, .unknown, "y"⟩ (reference (n 4) "x")
      (some (inner "y")) (some (reference (n 9) "y")), reference (n 10) "y"]
    let s := (State.initial.enter ⟨20, .unknown, "y"⟩ (.exact .string)).enter ⟨21, .unknown, "x"⟩
      (.exact (.list .any))
    Rebound e e' ∧ e.Unseen s ∧ e'.dependencies = e.dependencies ∧
      (e'.check .simple).run s = (e.check .simple).run s ∧
      ((e'.check .simple).run s).state.bindingOf? 9 = some 3 ∧
      ((e'.check .simple).run s).state.bindingOf? 10 = some 20 := by
  intro n inner e e' s
  have hunseen : e.Unseen s := ⟨by decide, by decide⟩
  have hfilter : Rebound e e' :=
    .element (n 1) [] [reference (n 10) "y"]
      (.comprehension (n 2) ⟨3, .unknown, "x"⟩ (reference (n 4) "x") (some (inner "x"))
        (some (reference (n 9) "x")) "y" (by decide))
  obtain ⟨hnames, hrun⟩ := check_rebound hfilter
  exact ⟨hfilter, hunseen, hnames, hrun .simple s hunseen, by decide, by decide⟩

end Expr
end QueryTyping
