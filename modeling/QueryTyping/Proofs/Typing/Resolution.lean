import QueryTyping.Proofs.Typing.Filters

/-!
# Names are resolved lexically

A reference means the innermost filter around it that binds its name, and where there is none, the
symbol that was visible before the check.  What the types of a filter's name are can be read off the
state at the end, because what is known about the list of the filter is settled when its name is
declared.

The proof carries along, for each place of a tree, that it is settled right after its part has been
checked, and that later checks keep it so: they specify only what they check, and expect something
only of the roots of what has been checked.

Main statements: `Settled.of_kept` says what keeps a place settled, `Settled.of_enter` what it means
outside of a filter that a place is settled inside, and `bindingOf_reference` how each reference of
a tree is resolved.
-/

namespace QueryTyping

/-- The symbol that a filter declares, given what is known about its list. -/
def Filter.symbol (f : Filter) (s : State) : Symbol :=
  ⟨f.bound.name, elementTypes f.source s, f.bound.id, f.bound.span⟩

namespace Place

/-- The innermost filter around a place that binds a name. -/
def filter? (pl : Place) (x : String) : Option Filter := pl.around.find? (·.bound.name == x)

/-- What a name means at a place: the element of a filter around it, whose list is as known in
`after`, or what the name meant `before`. -/
def symbol? (pl : Place) (x : String) (before after : State) : Option Symbol :=
  match pl.filter? x with
  | some f => some (f.symbol after)
  | none => before.symbol? x

/-- If a reference stands at the place, it is bound to what its name means there, and specified to
be of the types of that. -/
def Settled (pl : Place) (before after : State) : Prop :=
  ∀ n x, pl.expr = .reference n x →
    after.bindingOf? n.id = (pl.symbol? x before after).map Symbol.binding ∧
      ∀ symbol, pl.symbol? x before after = some symbol →
        ∃ info, after.info? n.id = some info ∧ info.specified = symbol.types

/-- What has to stay for a place to stay settled. -/
structure Kept (pl : Place) (s t : State) : Prop where
  specified : s.KeepsSpecified t pl.expr.id
  binding : t.bindingOf? pl.expr.id = s.bindingOf? pl.expr.id
  sources : ∀ f ∈ pl.around, t.info? f.source.id = s.info? f.source.id

variable {pl : Place} {s t u : State}

theorem Kept.of_eq (hinfo : ∀ i, t.info? i = s.info? i)
    (hbinding : ∀ i, t.bindingOf? i = s.bindingOf? i) : pl.Kept s t where
  specified := .of_info_eq (hinfo _)
  binding := hbinding _
  sources _ _ := hinfo _

/-- A check that expects something of the place may still keep it. -/
theorem Kept.of_run {p : Check} (hs : pl.expr.id ∉ p.specified) (hr : pl.expr.id ∉ p.resolved)
    (hsources : ∀ f ∈ pl.around, f.source.id ∉ p.specified ∧ f.source.id ∉ p.expected)
    (s : State) : pl.Kept s (p.run s).state where
  specified := Check.run_keepsSpecified hs s
  binding := Check.run_bindingOf hr s
  sources f hf := Check.run_info (hsources f hf).1 (hsources f hf).2 s

/-- The types of the filters' names stay when nothing new is learned about their lists. -/
theorem symbol_of_sources (x : String)
    (h : ∀ f ∈ pl.around, u.info? f.source.id = t.info? f.source.id) :
    pl.symbol? x s u = pl.symbol? x s t := by
  unfold symbol?
  cases hf : pl.filter? x with
  | none => rfl
  | some f =>
      have hmem : f ∈ pl.around := List.mem_of_find?_eq_some hf
      have htypes : u.types f.source.id = t.types f.source.id := State.types_congr (h f hmem)
      simp [Filter.symbol, elementTypes, htypes]

/-- **Settled places stay settled.** -/
theorem Settled.of_kept (h : pl.Settled s t) (hkept : pl.Kept t u) : pl.Settled s u := by
  intro n x hn
  obtain ⟨hbinding, htypes⟩ := h n x hn
  have hid : pl.expr.id = n.id := by rw [hn]; rfl
  have hsymbol : pl.symbol? x s u = pl.symbol? x s t := symbol_of_sources x hkept.sources
  rw [hsymbol]
  constructor
  · rw [← hid, hkept.binding, hid, hbinding]
  · intro symbol hsome
    obtain ⟨info, hinfo, hspecified⟩ := htypes symbol hsome
    obtain ⟨later, hlater, hsame⟩ := hkept.specified info (hid ▸ hinfo)
    exact ⟨later, hid ▸ hlater, hsame.trans hspecified⟩

/-- It only matters what names mean before, not what else is known. -/
theorem Settled.of_symbols (h : pl.Settled s u) (heq : ∀ x, s.symbol? x = t.symbol? x) :
    pl.Settled t u := by
  intro n x hn
  have hsymbol : pl.symbol? x t u = pl.symbol? x s u := by
    unfold symbol?
    rw [heq]
  rw [hsymbol]
  exact h n x hn

/-- A place that is settled in the binding of a filter is settled, seen from outside, with the
filter around it. -/
theorem Settled.of_enter {b : Binding} {l : Node}
    (h : pl.Settled (s.enter b (elementTypes l s)) t) (hl : t.types l.id = s.types l.id) :
    (pl.inside [⟨b, l⟩]).Settled s t := by
  intro n x hn
  have hsymbol : (pl.inside [⟨b, l⟩]).symbol? x s t =
      pl.symbol? x (s.enter b (elementTypes l s)) t := by
    unfold symbol? filter? inside
    rw [List.find?_append]
    cases pl.around.find? (·.bound.name == x) with
    | some f => rfl
    | none =>
        have helements : elementTypes l t = elementTypes l s := by simp [elementTypes, hl]
        by_cases hx : x = b.name
        · subst hx
          simp [Filter.symbol, helements, State.symbol_enter]
        · have hb : b.name ≠ x := fun h => hx h.symm
          simp [hb, hx, State.symbol_enter]
  rw [hsymbol]
  exact h n x hn

end Place

namespace Expr

/-- Every place of the tree is settled by its check. -/
def Settles (e : Expr) : Prop :=
  ∀ ctx s, e.Unseen s → (∀ i ∈ e.ids, s.bindingOf? i = none) →
    ∀ pl ∈ e.places [], pl.Settled s ((e.check ctx).run s).state

/-- A check that leaves the tree alone, except that it may expect something of its root, keeps the
places of the tree. -/
theorem kept_of_run {c : Expr} {pl : Place} (hpl : pl ∈ c.places []) (hc : c.ids.Nodup)
    {p : Check} (hs : ∀ i ∈ c.ids, i ∉ p.specified) (hr : ∀ i ∈ c.ids, i ∉ p.resolved)
    (he : ∀ i ∈ c.ids, i ∈ p.expected → i = c.id) (s : State) : pl.Kept s (p.run s).state := by
  have hid : pl.expr.id ∈ c.ids := id_of_mem_places hpl
  refine .of_run (hs _ hid) (hr _ hid) (fun f hf => ?_) s
  have hlower : f.source.id ∈ c.lowerIds := source_of_mem_places hpl hf
  have hmem := mem_ids_of_mem_lowerIds hlower
  refine ⟨hs _ hmem, fun hexpected => ?_⟩
  rw [he _ hmem hexpected] at hlower
  exact id_not_mem_lowerIds hc hlower

/-- A check that does not touch the tree keeps its places. -/
theorem kept_of_not_touched {c : Expr} {pl : Place} (hpl : pl ∈ c.places []) (hc : c.ids.Nodup)
    {p : Check} (hp : ∀ i ∈ c.ids, i ∉ p.touched) (s : State) : pl.Kept s (p.run s).state := by
  refine kept_of_run hpl hc (fun i hi h => ?_) (fun i hi h => ?_) (fun i hi h => ?_) s
  · exact hp i hi (Check.mem_touched.mpr (Or.inl h))
  · exact hp i hi (Check.mem_touched.mpr (Or.inr (Or.inr h)))
  · exact absurd (Check.mem_touched.mpr (Or.inr (Or.inl h))) (hp i hi)

/-- An expectation on the root keeps the places of a tree. -/
theorem kept_of_expect {c : Expr} {pl : Place} (hpl : pl ∈ c.places []) (hc : c.ids.Nodup)
    (possible : TypeSet) (cause : TypeSet → TypeSet → Cause) (s : State) :
    pl.Kept s (s.expectTypes c.node possible cause).state := by
  have hkept : pl.Kept s ((Check.expect c.node possible cause).run s).state := by
    refine kept_of_run hpl hc ?_ ?_ ?_ s
    · simp [Check.specified]
    · simp [Check.resolved]
    · intro i _ hi
      have hroot : i = c.node.id := by simpa [Check.expected] using hi
      exact hroot
  exact hkept

/-- Children in a row are all settled once they have been checked. -/
theorem settled_checkAll {cs : List Expr} (ih : ∀ c ∈ cs, c.Settles) (ctx : Context) {s : State}
    (hnodup : (cs.flatMap ids).Nodup) (hunseen : ∀ c ∈ cs, c.Unseen s)
    (hunbound : ∀ c ∈ cs, ∀ i ∈ c.ids, s.bindingOf? i = none) {c : Expr} (hc : c ∈ cs) {pl : Place}
    (hpl : pl ∈ c.places []) : pl.Settled s ((checkAll cs ctx).run s).state := by
  induction cs generalizing s with
  | nil => cases hc
  | cons d cs ihs =>
      obtain ⟨hd, hrest, hapart⟩ := nodup_flatMap_ids_cons.mp hnodup
      rw [checkAll]
      rcases List.mem_cons.mp hc with rfl | hc
      · have hsettled := ih c List.mem_cons_self ctx s (hunseen c List.mem_cons_self)
          (hunbound c List.mem_cons_self) pl hpl
        refine hsettled.of_kept (kept_of_not_touched hpl hd (fun i hi => ?_) _)
        exact not_touched_checkAll fun d hd => hapart d hd i hi
      · have hforeign : ∀ c ∈ cs, ∀ i ∈ c.ids, i ∉ (d.check ctx).touched :=
          fun c hc i hi htouched => hapart c hc i (mem_ids_of_touched htouched) hi
        have hsettled := ihs (fun c hc => ih c (List.mem_cons_of_mem _ hc))
          (s := ((d.check ctx).run s).state) hrest
          (fun c hc => (hunseen c (List.mem_cons_of_mem _ hc)).of_run (hforeign c hc))
          (fun c hc i hi => (Check.run_bindingOf_of_not_touched (hforeign c hc i hi) s).trans
            (hunbound c (List.mem_cons_of_mem _ hc) i hi)) hc
        exact hsettled.of_symbols fun x => symbol_run_check d ctx s x

/-- The predicate and the projection of a filter are settled once both have been checked. -/
theorem settled_parts {p q : Option Expr} (ih : ∀ c ∈ p.toList ++ q.toList, c.Settles) {s : State}
    (hnodup : ((p.toList ++ q.toList).flatMap ids).Nodup)
    (hunseen : ∀ c ∈ p.toList ++ q.toList, c.Unseen s)
    (hunbound : ∀ c ∈ p.toList ++ q.toList, ∀ i ∈ c.ids, s.bindingOf? i = none) {c : Expr}
    (hc : c ∈ p.toList ++ q.toList) {pl : Place} (hpl : pl ∈ c.places []) :
    pl.Settled s ((checkProjection q).run ((checkPredicate p).run s).state).state := by
  rw [List.flatMap_append, List.nodup_append] at hnodup
  obtain ⟨-, -, hapart⟩ := hnodup
  have hdisjoint : ∀ c ∈ p.toList, ∀ d ∈ q.toList, ∀ i ∈ c.ids, i ∉ d.ids := by
    intro c hc d hd i hi hid
    exact hapart i (List.mem_flatMap.mpr ⟨c, hc, hi⟩) i (List.mem_flatMap.mpr ⟨d, hd, hid⟩) rfl
  have hnew := hunseen c hc
  have hsettles := ih c hc
  have hbound := hunbound c hc
  rcases List.mem_append.mp hc with hc | hc
  · obtain rfl := Option.mem_toList.mp hc
    have hchecked := hsettles .simple s hnew hbound pl hpl
    have hexpected := kept_of_expect hpl hnew.distinct truth .mismatch ((c.check .simple).run s).state
    refine (hchecked.of_kept hexpected).of_kept (kept_of_not_touched hpl hnew.distinct ?_ _)
    exact fun i hi => not_touched_checkProjection fun d hd => hdisjoint c hc d hd i hi
  · obtain rfl := Option.mem_toList.mp hc
    have hforeign : ∀ i ∈ c.ids, i ∉ (checkPredicate p).touched := fun i hi =>
      not_touched_checkPredicate fun d hd hid => hdisjoint d hd c hc i hid hi
    have hsymbols : ∀ x, ((checkPredicate p).run s).state.symbol? x = s.symbol? x :=
      Check.run_symbol (closed_checkPredicate p) s
    have hchecked := hsettles .simple _ (hnew.of_run hforeign) (fun i hi =>
      (Check.run_bindingOf_of_not_touched (hforeign i hi) s).trans (hbound i hi)) pl hpl
    exact hchecked.of_symbols hsymbols

/-- What stands in the list of a filter is settled outside of the binding. -/
theorem settled_list {b : Binding} {l : Expr} {p q : Option Expr} (hsettles : l.Settles)
    (ctx : Context) {s : State} (hunseen : l.Unseen s)
    (hunbound : ∀ i ∈ l.ids, s.bindingOf? i = none) (hb : b.id ∉ l.ids)
    (hapart : ∀ c ∈ p.toList ++ q.toList, ∀ i ∈ l.ids, i ∉ c.ids) {pl : Place}
    (hpl : pl ∈ l.places []) : pl.Settled s (l.afterInside b p q ctx s) := by
  have hchecked : pl.Settled s ((l.check ctx).run s).state := hsettles ctx s hunseen hunbound pl hpl
  have hexpected : pl.Kept ((l.check ctx).run s).state (l.afterList ctx s) :=
    kept_of_expect hpl hunseen.distinct _ _ _
  have hforeign : ∀ i ∈ l.ids,
      (l.afterInside b p q ctx s).info? i = (l.afterList ctx s).info? i ∧
        (l.afterInside b p q ctx s).bindingOf? i = (l.afterList ctx s).bindingOf? i :=
    fun i hi => afterInside_frame (fun c hc => hapart c hc i hi) (fun heq => hb (heq ▸ hi)) ctx s
  have hrest : pl.Kept (l.afterList ctx s) (l.afterInside b p q ctx s) := by
    obtain ⟨hinfo, hbinding⟩ := hforeign _ (id_of_mem_places hpl)
    refine ⟨.of_info_eq hinfo, hbinding, fun f hf => ?_⟩
    exact (hforeign _ (mem_ids_of_mem_lowerIds (source_of_mem_places hpl hf))).1
  exact (hchecked.of_kept hexpected).of_kept hrest

/-- What stands in the predicate or the projection is settled with the filter around it. -/
theorem settled_inside {b : Binding} {l : Expr} {p q : Option Expr}
    (ih : ∀ c ∈ p.toList ++ q.toList, c.Settles) (ctx : Context) {s : State}
    (hnodup : ((p.toList ++ q.toList).flatMap ids).Nodup)
    (hapart : ∀ c ∈ p.toList ++ q.toList, ∀ i ∈ l.ids, i ∉ c.ids)
    (hl : b.id ∉ l.ids) (hb : ∀ c ∈ p.toList ++ q.toList, b.id ∉ c.ids)
    (hunseen : ∀ c ∈ p.toList ++ q.toList, c.Unseen s)
    (hunbound : ∀ c ∈ p.toList ++ q.toList, ∀ i ∈ c.ids, s.bindingOf? i = none) {c : Expr}
    (hc : c ∈ p.toList ++ q.toList) {inner : Place} (hinner : inner ∈ c.places []) :
    (inner.inside [⟨b, l.node⟩]).Settled s (l.afterInside b p q ctx s) := by
  have hnew : ∀ c ∈ p.toList ++ q.toList, ∀ i ∈ c.ids, i ∉ l.ids :=
    fun c hc i hi hil => hapart c hc i hil hi
  have hchecked : inner.Settled (l.entered b ctx s) (l.afterInside b p q ctx s) := by
    refine settled_parts ih hnodup (fun c hc => ?_) (fun c hc i hi => ?_) hc hinner
    · exact (hunseen c hc).entered (hnew c hc) (hb c hc) ctx
    · exact (bindingOf_afterList (hnew c hc i hi) ctx s).trans (hunbound c hc i hi)
  have hroot : l.id ∈ l.ids := id_mem_ids l
  have htypes : (l.afterInside b p q ctx s).types l.node.id = (l.afterList ctx s).types l.node.id :=
    State.types_congr (afterInside_frame (fun c hc => hapart c hc l.id hroot)
      (fun heq => hl (heq ▸ hroot)) ctx s).1
  have houter := Place.Settled.of_enter hchecked htypes
  exact houter.of_symbols fun x => symbol_afterList l ctx s x

/-- **The places of a filter.**  What stands in the list is settled outside of the binding, and what
stands in the predicate or the projection is settled with the filter around it. -/
theorem settled_filterBody {b : Binding} {l : Expr} {p q : Option Expr}
    (ih : ∀ c ∈ l :: (p.toList ++ q.toList), c.Settles) (ctx : Context) {s : State}
    (hnodup : ((l :: (p.toList ++ q.toList)).flatMap ids).Nodup)
    (hb : ∀ c ∈ l :: (p.toList ++ q.toList), b.id ∉ c.ids) (hs : s.info? b.id = none)
    (hunseen : ∀ c ∈ l :: (p.toList ++ q.toList), c.Unseen s)
    (hunbound : ∀ c ∈ l :: (p.toList ++ q.toList), ∀ i ∈ c.ids, s.bindingOf? i = none) :
    (∀ pl ∈ l.places [], pl.Settled s ((filterBody ctx b l p q).run s).state) ∧
      ∀ c ∈ p.toList ++ q.toList, ∀ inner ∈ c.places [],
        (inner.inside [⟨b, l.node⟩]).Settled s ((filterBody ctx b l p q).run s).state := by
  obtain ⟨-, hparts, hapart⟩ := nodup_flatMap_ids_cons.mp hnodup
  have hl : b.id ∉ l.ids := hb l List.mem_cons_self
  have hmem : ∀ c ∈ p.toList ++ q.toList, c ∈ l :: (p.toList ++ q.toList) :=
    fun c hc => List.mem_cons_of_mem _ hc
  have hpop : ∀ pl : Place, pl.Kept (l.afterInside b p q ctx s) (l.afterInside b p q ctx s).pop :=
    fun pl => .of_eq (fun _ => rfl) fun _ => rfl
  rw [run_filterBody ctx p q hs hl]
  constructor
  · intro pl hpl
    have hsettled := settled_list (ih l List.mem_cons_self) ctx (hunseen l List.mem_cons_self)
      (hunbound l List.mem_cons_self) hl hapart hpl
    exact hsettled.of_kept (hpop pl)
  · intro c hc inner hinner
    have hsettled := settled_inside (fun c hc => ih c (hmem c hc)) ctx hparts hapart hl
      (fun c hc => hb c (hmem c hc)) (fun c hc => hunseen c (hmem c hc))
      (fun c hc => hunbound c (hmem c hc)) hc hinner
    exact hsettled.of_kept (hpop _)

/-- The root of a tree is settled: only a reference has something to settle. -/
theorem settled_root {e : Expr} (ctx : Context) {s : State} (hunseen : e.Unseen s)
    (hunbound : ∀ i ∈ e.ids, s.bindingOf? i = none) :
    Place.Settled ⟨e, []⟩ s ((e.check ctx).run s).state := by
  intro n x hn
  subst hn
  have hid : n.id ∈ (reference n x).ids := id_mem_ids (reference n x)
  have hmeaning : ∀ t, Place.symbol? ⟨reference n x, []⟩ x s t = s.symbol? x := fun t => rfl
  have hinfo : s.info? n.id = none := hunseen.unknown _ hid
  rw [hmeaning, check, Check.run, State.resolve]
  cases s.symbol? x with
  | none => exact ⟨hunbound _ hid, fun symbol h => by cases h⟩
  | some symbol =>
      dsimp only
      rw [State.specify_of_unknown hinfo]
      refine ⟨?_, fun symbol' h => ?_⟩
      · simp [bind, Except.bind, pure, Except.pure, Outcome.ofExcept, State.bindingOf?]
      · cases h
        refine ⟨⟨symbol.types, none⟩, ?_, rfl⟩
        simp [bind, Except.bind, pure, Except.pure, Outcome.ofExcept, State.info?, State.next]

/-- The closing of a node keeps every place below it: it specifies the node alone, and it expects
something of children only. -/
theorem kept_of_closing {e : Expr} (he : e.ids.Nodup) {pl : Place} (hpl : pl ∈ e.places [])
    (hne : pl ≠ ⟨e, []⟩) (s : State) : pl.Kept s (e.closing.run s).state := by
  have hbelow : pl.expr.id ∈ e.lowerIds := by
    rcases mem_places hpl with rfl | ⟨c, hc, hplace⟩ | ⟨c, hc, inner, hinner, rfl⟩
    · exact absurd rfl hne
    · exact mem_lowerIds_of_mem_children (mem_children_of_outside hc) (id_of_mem_places hplace)
    · have hid : inner.expr.id ∈ c.ids := id_of_mem_places hinner
      exact mem_lowerIds_of_mem_children (mem_children_of_within hc) hid
  have hroot : ∀ i ∈ e.lowerIds, i ∉ e.closing.specified := by
    intro i hi h
    rw [specified_closing, List.mem_singleton] at h
    exact id_not_mem_lowerIds he (h ▸ hi)
  refine .of_run (hroot _ hbelow) ?_ (fun f hf => ⟨hroot _ (source_of_mem_places hpl hf), ?_⟩) s
  · cases e with
    | reference n x => exact absurd hbelow (by simp [lowerIds, bound?, children])
    | _ =>
        rw [resolved_closing (by simp)]
        exact List.not_mem_nil
  · intro hexpected
    cases hfilter : e.filter? with
    | some g =>
        cases e with
        | comprehension n b l p q => cases hexpected
        | quantified n k b l p => cases p <;> cases hexpected
        | _ => cases hfilter
    | none =>
        have hwithin := within_of_filter_none hfilter
        rcases mem_places hpl with rfl | ⟨c, hc, hplace⟩ | ⟨c, hc, -⟩
        · exact hne rfl
        · -- the filter stands in a child, so its list is not a child itself
          have hsource := source_of_mem_places hplace hf
          obtain ⟨d, hd, hid⟩ := mem_children_of_expected_closing hexpected
          by_cases hcd : c = d
          · subst hcd
            rw [hid] at hsource
            exact id_not_mem_lowerIds (nodup_of_mem_children he hd) hsource
          · have hchild := mem_children_of_outside hc
            have hdisjoint := disjoint_children he hchild hd hcd
            exact hdisjoint _ (mem_ids_of_mem_lowerIds hsource) (hid ▸ id_mem_ids d)
        · rw [hwithin] at hc
          cases hc

/-- **Names are resolved lexically, for every place at once.** -/
theorem settles (e : Expr) : e.Settles := by
  induction e using children_induction with
  | node e ih =>
      intro ctx s hunseen hunbound pl hpl
      by_cases hroot : pl = ⟨e, []⟩
      · rw [hroot]
        exact settled_root ctx hunseen hunbound
      have hchild : ∀ c ∈ e.children, c.Unseen s := fun c hc => hunseen.child hc
      have hbound : ∀ c ∈ e.children, ∀ i ∈ c.ids, s.bindingOf? i = none :=
        fun c hc i hi => hunbound i (mem_ids_of_mem_children hc hi)
      have hkept := kept_of_closing hunseen.distinct hpl hroot
      have hbody : pl.Settled s ((e.body ctx).run s).state := by
        have hnodup := nodup_children hunseen.distinct
        cases hfilter : e.filter? with
        | none =>
            rcases mem_places hpl with h | ⟨c, hc, hplace⟩ | ⟨c, hc, -⟩
            · exact absurd h hroot
            · rw [body_of_filter_none hfilter]
              exact settled_checkAll ih _ hnodup hchild hbound (mem_children_of_outside hc) hplace
            · rw [within_of_filter_none hfilter] at hc
              cases hc
        | some f =>
            obtain ⟨b, l, p, q, rfl, hchildren, hbody, houtside, hwithin, hb⟩ :=
              filterBody_of_filter hfilter ctx
            rw [hchildren] at ih hchild hbound hnodup
            have hbinding : ∀ c ∈ l :: (p.toList ++ q.toList), b.id ∉ c.ids :=
              fun c hc => bound_not_mem_child hunseen.distinct hb (hchildren ▸ hc)
            have hunknown : s.info? b.id = none :=
              hunseen.unknown _ (mem_ids_of_mem_lowerIds (bound_mem_lowerIds hb))
            obtain ⟨hlist, hparts⟩ :=
              settled_filterBody ih ctx hnodup hbinding hunknown hchild hbound
            rw [hbody]
            rcases mem_places hpl with h | ⟨c, hc, hplace⟩ | ⟨c, hc, inner, hinner, rfl⟩
            · exact absurd h hroot
            · rw [houtside, List.mem_singleton] at hc
              exact hlist pl (hc ▸ hplace)
            · rw [hwithin] at hc
              rw [hfilter]
              exact hparts c hc inner hinner
      rw [run_check_stages]
      exact hbody.of_kept (hkept _)

/-- **Names are resolved lexically.**  After the check of a tree, a reference inside a filter that
binds its name is bound to the innermost such filter, and its specified types are those of the
elements of the filter's list, as the list is known in the end, or all types if there are none.  Any
other reference means what its name meant before, with the types that the name was declared with. -/
theorem bindingOf_reference {e : Expr} {s : State} (ctx : Context) (hunseen : e.Unseen s)
    (hunbound : ∀ i ∈ e.ids, s.bindingOf? i = none) {n : Node} {x : String} {around : List Filter}
    (hplace : ⟨reference n x, around⟩ ∈ e.places []) :
    let after := ((e.check ctx).run s).state
    match around.find? (·.bound.name == x) with
    | some f =>
        let elements := (after.types f.source.id).unwrap
        after.bindingOf? n.id = some f.bound.id ∧
          ∃ info, after.info? n.id = some info ∧
            info.specified = if elements.isEmpty then .all else elements
    | none =>
        after.bindingOf? n.id = (s.symbol? x).map Symbol.binding ∧
          ∀ symbol, s.symbol? x = some symbol →
            ∃ info, after.info? n.id = some info ∧ info.specified = symbol.types := by
  intro after
  obtain ⟨hbinding, htypes⟩ := settles e ctx s hunseen hunbound _ hplace n x rfl
  rw [Place.symbol?, Place.filter?] at hbinding htypes
  cases hfind : around.find? (·.bound.name == x) with
  | some f =>
      rw [hfind] at hbinding htypes
      exact ⟨hbinding, htypes (f.symbol after) rfl⟩
  | none =>
      rw [hfind] at hbinding htypes
      exact ⟨hbinding, htypes⟩

/-- In `[x in x | x]` the list is bound outside, and the predicate to the filter, where it is of the
type of the elements. -/
theorem bindingOf_shadowed_reference :
    let s := State.initial.enter ⟨9, .unknown, "x"⟩ (.covariant (.list .boolean))
    let e := comprehension ⟨1, .unknown⟩ ⟨2, .unknown, "x"⟩ (reference ⟨3, .unknown⟩ "x")
      (some (reference ⟨4, .unknown⟩ "x")) none
    let after := ((e.check .simple).run s).state
    (e.ids.Nodup ∧ ∀ i ∈ e.ids, s.info? i = none ∧ s.bindingOf? i = none) ∧
      (after.bindingOf? 4 = some 2 ∧
        ∃ info, after.info? 4 = some info ∧ info.specified = .exact .boolean) ∧
      after.bindingOf? 3 = some 9 ∧
        ∃ info, after.info? 3 = some info ∧ info.specified = .covariant (.list .boolean) := by
  intro s e after
  have hids : e.ids.Nodup ∧ ∀ i ∈ e.ids, s.info? i = none ∧ s.bindingOf? i = none := by decide
  have hunseen : e.Unseen s := ⟨hids.1, fun i hi => (hids.2 i hi).1⟩
  have hunbound : ∀ i ∈ e.ids, s.bindingOf? i = none := fun i hi => (hids.2 i hi).2
  have hinner : ⟨reference ⟨4, .unknown⟩ "x", [⟨⟨2, .unknown, "x"⟩, ⟨3, .unknown⟩⟩]⟩ ∈ e.places [] := by
    simp [e, places, placesOption, node]
  have houter : ⟨reference ⟨3, .unknown⟩ "x", []⟩ ∈ e.places [] := by
    simp [e, places, placesOption, node]
  have helements : (after.types 3).unwrap = .exact .boolean := by decide
  obtain ⟨hbound, info, hinfo, hspecified⟩ := bindingOf_reference .simple hunseen hunbound hinner
  obtain ⟨hfree, htypes⟩ := bindingOf_reference .simple hunseen hunbound houter
  refine ⟨hids, ⟨hbound, info, hinfo, hspecified.trans ?_⟩, hfree, htypes _ rfl⟩
  change (if (after.types 3).unwrap.isEmpty then TypeSet.all else (after.types 3).unwrap) = _
  rw [helements]
  rfl

end Expr
end QueryTyping
