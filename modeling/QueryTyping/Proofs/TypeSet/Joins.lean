import QueryTyping.Proofs.TypeSet.Join

/-!
# The join of a list in another order

The highest types of the join of a list are those of its sets, each brought up to the nearest
supertype that all sets reach, so they do not depend on the order.  What depends on it is which of
them come with their subtypes.  A type that some set has with its subtypes keeps them as long as
every other set has a proper subtype to offer.  But sets that are joined first may have nothing in
common below the type; then they have the type by itself, and nothing brings the subtypes back.

For a list this can be decided without joining anything.  The subtypes may be kept if each set offers
something below the type, and they must be kept if all sets offer something below the same child of
it.

Main statements: `mem_tops_joins` gives the highest types, `maySpread_iff` and `mustSpread_iff` say
what the two tests mean, and `joins_perm` says when the order is of no matter.  `join_order_matters`
is a list for which it is.
-/

namespace QueryTyping.TypeSet

variable {as bs : List TypeSet} {a b : TypeSet} {t u : Ty}

/-! The highest types -/

/-- All sets reach the type. -/
def allReach (as : List TypeSet) (t : Ty) : Bool := as.all (·.reaches t)

theorem allReach_joining (a b : TypeSet) (as : List TypeSet) (t : Ty) :
    allReach (a.join b :: as) t = allReach (a :: b :: as) t := by
  simp only [allReach, List.all_cons, reaches_join, Bool.and_assoc]

theorem reaches_joins (as : List TypeSet) (t : Ty) : (joins as).reaches t = allReach as t := by
  induction as using joining_induction with
  | nil => rfl
  | single a => rw [joins_singleton, allReach, List.all_cons, List.all_nil, Bool.and_true]
  | step a b as ih => rw [joins_cons_cons, ih, allReach_joining]

theorem reaches_any (a : TypeSet) : a.reaches .any = true := by
  cases h : a.isEmpty with
  | true => rw [eq_empty h]; rfl
  | false =>
      obtain ⟨t, ht⟩ := isEmpty_eq_false_iff.mp h
      obtain ⟨r, hr, -⟩ := mem_iff.mp ht
      exact reaches_ty hr (Ty.any_accepts r.ty)

/-- From a highest type of a join one goes up as from the type that it comes from. -/
theorem exists_top_join {q : Ty → Prop} (hq : ∀ v, q v → a.reaches v = true ∧ b.reaches v = true) :
    (∃ t ∈ (a.join b).tops, Ty.Nearest q t u) ↔
      (∃ t ∈ a.tops, Ty.Nearest q t u) ∨ ∃ t ∈ b.tops, Ty.Nearest q t u := by
  have hgo : ∀ {c : TypeSet} {t v : Ty}, (∀ v, q v → c.reaches v = true) →
      Ty.Nearest (c.reaches · = true) t v → (Ty.Nearest q v u ↔ Ty.Nearest q t u) := by
    intro c t v hc hv
    rw [hv.step fun h => reaches_up h]
    exact Ty.Nearest.congr fun w => and_iff_right_of_imp (hc w)
  have hqa : ∀ v, q v → a.reaches v = true := fun v hv => (hq v hv).1
  have hqb : ∀ v, q v → b.reaches v = true := fun v hv => (hq v hv).2
  constructor
  · rintro ⟨t, ht, hu⟩
    rcases mem_tops_join.mp ht with ⟨v, hv, hnearest⟩ | ⟨v, hv, hnearest⟩
    · exact .inl ⟨v, hv, (hgo hqb hnearest).mp hu⟩
    · exact .inr ⟨v, hv, (hgo hqa hnearest).mp hu⟩
  · rintro (⟨v, hv, hu⟩ | ⟨v, hv, hu⟩)
    · obtain ⟨t, ht⟩ := Ty.exists_nearest (p := (b.reaches · = true)) b.reaches_any v
      exact ⟨t, mem_tops_join.mpr (.inl ⟨v, hv, ht⟩), (hgo hqb ht).mpr hu⟩
    · obtain ⟨t, ht⟩ := Ty.exists_nearest (p := (a.reaches · = true)) a.reaches_any v
      exact ⟨t, mem_tops_join.mpr (.inr ⟨v, hv, ht⟩), (hgo hqa ht).mpr hu⟩

/-- **The highest types of the join of a list.**  Each highest type of a set goes up to the nearest
supertype that all sets reach. -/
theorem mem_tops_joins :
    u ∈ (joins as).tops ↔ ∃ a ∈ as, ∃ t ∈ a.tops, Ty.Nearest (allReach as · = true) t u := by
  induction as using joining_induction with
  | nil => simp [joins_nil, tops]
  | single a =>
      have hnearest : ∀ t ∈ a.tops, Ty.Nearest (allReach [a] · = true) t u ↔ u = t := by
        intro t ht
        obtain ⟨r, hr, rfl⟩ := mem_tops.mp ht
        refine Ty.Nearest.self_iff ?_
        rw [allReach, List.all_cons, List.all_nil, Bool.and_true]
        exact reaches_ty hr (Ty.accepts_refl r.ty)
      rw [joins_singleton]
      constructor
      · intro hu
        exact ⟨a, List.mem_singleton_self a, u, hu, (hnearest u hu).mpr rfl⟩
      · rintro ⟨c, hc, t, ht, hu⟩
        obtain rfl := List.mem_singleton.mp hc
        exact (hnearest t ht).mp hu ▸ ht
  | step a b as ih =>
      have hboth : ∀ v, allReach (a :: b :: as) v = true →
          a.reaches v = true ∧ b.reaches v = true := by
        intro v hv
        simp only [allReach, List.all_cons, Bool.and_eq_true] at hv
        exact ⟨hv.1, hv.2.1⟩
      rw [joins_cons_cons, ih]
      simp only [allReach_joining, List.mem_cons, exists_eq_or_imp, exists_top_join hboth,
        or_assoc]

/-! The types that come with their subtypes -/

/-- Some set has the type with its subtypes, and each set has it so or reaches a child of it: in some
order the join of the sets has the type with its subtypes. -/
def maySpread (as : List TypeSet) (u : Ty) : Bool := as.any (·.spreads u) && as.all (·.admits u)

/-- Some set has the type with its subtypes, and all other sets reach the same child of it: in every
order the join of the sets has the type with its subtypes. -/
def mustSpread (as : List TypeSet) (u : Ty) : Bool :=
  as.any (·.spreads u) && u.children.any fun c => as.all fun a => a.spreads u || a.reaches c

/-- The sets of the list have the same join in every order. -/
def orderFree (as : List TypeSet) : Bool :=
  (as.flatMap tops).all fun u => !maySpread as u || mustSpread as u

theorem maySpread_eq_true : maySpread as u = true ↔
    (∃ a ∈ as, a.spreads u = true) ∧ ∀ a ∈ as, a.admits u = true := by
  rw [maySpread, Bool.and_eq_true, List.any_eq_true, List.all_eq_true]

theorem mustSpread_eq_true : mustSpread as u = true ↔
    (∃ a ∈ as, a.spreads u = true) ∧
      ∃ c ∈ u.children, ∀ a ∈ as, a.spreads u = true ∨ a.reaches c = true := by
  simp only [mustSpread, Bool.and_eq_true, List.any_eq_true, List.all_eq_true, Bool.or_eq_true]

theorem maySpread_perm (h : bs.Perm as) (u : Ty) : maySpread bs u = maySpread as u := by
  rw [maySpread, maySpread, h.any_eq, h.all_eq]

theorem mustSpread_perm (h : bs.Perm as) (u : Ty) : mustSpread bs u = mustSpread as u := by
  rw [mustSpread, mustSpread, h.any_eq]
  simp only [h.all_eq]

theorem admits_of_admits_join (h : (a.join b).admits u = true) :
    a.admits u = true ∧ b.admits u = true := by
  rw [admits, spreads_join, Bool.or_eq_true, List.any_eq_true] at h
  rcases h with hspreads | ⟨c, hc, hreaches⟩
  · simp only [Bool.and_eq_true] at hspreads
    exact hspreads.2
  · rw [reaches_join, Bool.and_eq_true] at hreaches
    exact ⟨admits_of_reaches hc hreaches.1, admits_of_reaches hc hreaches.2⟩

theorem maySpread_of_joins (h : (joins as).spreads u = true) : maySpread as u = true := by
  induction as using joining_induction with
  | nil => cases h
  | single a =>
      rw [joins_singleton] at h
      simp [maySpread, h, admits_of_spreads h]
  | step a b as ih =>
      have hjoined := ih h
      simp only [maySpread, List.any_cons, List.all_cons, Bool.and_eq_true, Bool.or_eq_true,
        spreads_join] at hjoined ⊢
      obtain ⟨hsome, hfirst, hrest⟩ := hjoined
      obtain ⟨ha, hb⟩ := admits_of_admits_join hfirst
      refine ⟨?_, ha, hb, hrest⟩
      rcases hsome with ⟨hspreads, -⟩ | hlater
      · exact or_assoc.mp (.inl hspreads)
      · exact .inr (.inr hlater)

theorem joins_of_mustSpread (h : mustSpread as u = true) : (joins as).spreads u = true := by
  induction as using joining_induction with
  | nil => cases h
  | single a =>
      rw [mustSpread, Bool.and_eq_true, List.any_cons, List.any_nil, Bool.or_false] at h
      exact h.1
  | step a b as ih =>
      refine ih ?_
      rw [mustSpread, Bool.and_eq_true, List.any_eq_true (l := u.children)] at h ⊢
      obtain ⟨hsome, c, hc, hall⟩ := h
      simp only [List.any_cons, List.all_cons, Bool.and_eq_true, Bool.or_eq_true] at hsome hall ⊢
      obtain ⟨ha, hb, hrest⟩ := hall
      have hadmits : ∀ d : TypeSet, d.spreads u = true ∨ d.reaches c = true → d.admits u = true :=
        fun d hd => hd.elim admits_of_spreads (admits_of_reaches hc)
      -- a pair of which one has the subtypes keeps them, and another pair still reaches the child
      by_cases hpair : a.spreads u = true ∨ b.spreads u = true
      · have hjoin : (a.join b).spreads u = true := by
          rw [spreads_join, Bool.and_eq_true, Bool.or_eq_true, Bool.and_eq_true]
          exact ⟨hpair, hadmits a ha, hadmits b hb⟩
        exact ⟨.inl hjoin, c, hc, .inl hjoin, hrest⟩
      · obtain ⟨hna, hnb⟩ := not_or.mp hpair
        have hreaches : (a.join b).reaches c = true := by
          rw [reaches_join, Bool.and_eq_true]
          exact ⟨ha.resolve_left hna, hb.resolve_left hnb⟩
        exact ⟨.inr ((hsome.resolve_left hna).resolve_left hnb), c, hc, .inr hreaches, hrest⟩

/-- Subtypes that the join so far has are kept by sets that admit the type. -/
theorem spreads_foldl (ha : a.spreads u = true) (h : ∀ c ∈ as, c.admits u = true) :
    (as.foldl join a).spreads u = true := by
  induction as generalizing a with
  | nil => exact ha
  | cons c as ih =>
      refine ih ?_ fun d hd => h d (List.mem_cons_of_mem _ hd)
      rw [spreads_join, ha, admits_of_spreads ha, h c List.mem_cons_self]
      rfl

/-- Once the join so far does not admit a type, it never has its subtypes. -/
theorem not_admits_foldl (ha : ¬ a.admits u = true) : ¬ (as.foldl join a).admits u = true := by
  induction as generalizing a with
  | nil => exact ha
  | cons c as ih => exact ih fun h => ha (admits_of_admits_join h).1

/-- Sets that do not have the subtypes, and do not all reach the same child, have a join that does
not admit the type. -/
theorem not_admits_joins (h : ∀ a ∈ as, ¬ a.spreads u = true)
    (hapart : ∀ c ∈ u.children, ¬ allReach as c = true) : ¬ (joins as).admits u = true := by
  rw [admits, Bool.or_eq_true, List.any_eq_true]
  rintro (hspreads | ⟨c, hc, hreaches⟩)
  · obtain ⟨⟨a, ha, hspreads⟩, -⟩ := maySpread_eq_true.mp (maySpread_of_joins hspreads)
    exact h a ha hspreads
  · rw [reaches_joins] at hreaches
    exact hapart c hc hreaches

/-- **What may be kept is kept in some order**, with a set first that has the subtypes. -/
theorem maySpread_iff : maySpread as u = true ↔ ∃ bs, bs.Perm as ∧ (joins bs).spreads u = true := by
  constructor
  · intro h
    obtain ⟨⟨a, ha, hspreads⟩, hall⟩ := maySpread_eq_true.mp h
    refine ⟨a :: as.erase a, (List.perm_cons_erase ha).symm, ?_⟩
    exact spreads_foldl (a := a) hspreads fun c hc => hall c (List.mem_of_mem_erase hc)
  · rintro ⟨bs, hperm, hspreads⟩
    rw [← maySpread_perm hperm]
    exact maySpread_of_joins hspreads

/-- **What must be kept is kept in every order.**  Otherwise the sets that do not have the subtypes,
joined first, reach no child of the type, and after that nothing brings the subtypes back. -/
theorem mustSpread_iff :
    mustSpread as u = true ↔ ∀ bs, bs.Perm as → (joins bs).spreads u = true := by
  constructor
  · intro h bs hperm
    rw [← mustSpread_perm hperm] at h
    exact joins_of_mustSpread h
  · intro h
    obtain ⟨hsome, -⟩ := maySpread_eq_true.mp (maySpread_of_joins (h as (List.Perm.refl as)))
    apply Classical.byContradiction
    intro hmust
    have hperm : (as.filter (!·.spreads u) ++ as.filter (·.spreads u)).Perm as :=
      List.perm_append_comm.trans (List.filter_append_perm (·.spreads u) as)
    have hstuck : ¬ (joins (as.filter (!·.spreads u))).admits u = true := by
      refine not_admits_joins (fun a ha => ?_) fun c hc hreach => hmust ?_
      · rw [List.mem_filter, Bool.not_eq_true'] at ha
        exact Bool.eq_false_iff.mp ha.2
      · refine mustSpread_eq_true.mpr ⟨hsome, c, hc, fun a ha => ?_⟩
        rw [allReach, List.all_eq_true] at hreach
        cases hspreads : a.spreads u with
        | true => exact .inl rfl
        | false => exact .inr (hreach a (List.mem_filter.mpr ⟨ha, by rw [hspreads]; rfl⟩))
    have hspreads := h _ hperm
    rw [joins, List.foldl_append] at hspreads
    exact not_admits_foldl hstuck (admits_of_spreads hspreads)

theorem orderFree_iff :
    orderFree as = true ↔ ∀ u, maySpread as u = true → mustSpread as u = true := by
  rw [orderFree, List.all_eq_true]
  constructor
  · intro h u hmay
    obtain ⟨⟨a, ha, hspreads⟩, -⟩ := maySpread_eq_true.mp hmay
    have htop : u ∈ a.tops := ty_mem_tops (spreads_iff.mp hspreads)
    have hu := h u (List.mem_flatMap.mpr ⟨a, ha, htop⟩)
    rwa [hmay, Bool.not_true, Bool.false_or] at hu
  · intro h u _
    cases hmay : maySpread as u with
    | false => rfl
    | true => exact h u hmay

theorem tops_joins_perm (h : bs.Perm as) (u : Ty) : u ∈ (joins bs).tops ↔ u ∈ (joins as).tops := by
  have hreach : ∀ t, allReach bs t = allReach as t := fun t => h.all_eq
  rw [mem_tops_joins, mem_tops_joins]
  simp only [hreach, h.mem_iff]

/-- The written form shows the highest types only. -/
theorem text_eq_of_tops (h : ∀ u, u ∈ a.tops ↔ u ∈ b.tops) : a.text = b.text := by
  have hnames : ∀ c : TypeSet, c.ranges.map (fun r => r.ty.name) = c.tops.map Ty.name := by
    intro c
    rw [tops, List.map_map]
    rfl
  have hempty : ∀ c : TypeSet, c.isEmpty = c.tops.isEmpty := fun c => List.isEmpty_map.symm
  have harranged : arrange (a.tops.map Ty.name) = arrange (b.tops.map Ty.name) :=
    (increasing_arrange _).eq_of_mem_iff (increasing_arrange _) fun x => by
      simp only [mem_arrange, List.mem_map, h]
  have hisEmpty : a.isEmpty = b.isEmpty := by
    rw [hempty, hempty, Bool.eq_iff_iff, List.isEmpty_iff, List.isEmpty_iff,
      List.eq_nil_iff_forall_not_mem, List.eq_nil_iff_forall_not_mem]
    simp only [h]
  rw [text, text, hnames, hnames, harranged, hisEmpty]

/-- **The join of a list in another order.**  The highest types of the join, and so its written form,
do not depend on the order of the list.  The whole join does not depend on it if and only if each type
that may come with its subtypes must come with them. -/
theorem joins_perm (as : List TypeSet) :
    (∀ bs, bs.Perm as →
        (∀ u, u ∈ (joins bs).tops ↔ u ∈ (joins as).tops) ∧ (joins bs).text = (joins as).text) ∧
      ((∀ bs, bs.Perm as → joins bs = joins as) ↔ orderFree as = true) := by
  refine ⟨fun bs h => ⟨tops_joins_perm h, text_eq_of_tops (tops_joins_perm h)⟩, ?_⟩
  rw [orderFree_iff]
  constructor
  · intro h u hmay
    obtain ⟨bs, hperm, hspreads⟩ := maySpread_iff.mp hmay
    refine mustSpread_iff.mpr fun cs hcs => ?_
    rw [h cs hcs, ← h bs hperm]
    exact hspreads
  · intro h bs hperm
    have hspreads : ∀ cs, cs.Perm as → ∀ u, (joins cs).spreads u = true ↔ maySpread as u = true := by
      intro cs hcs u
      exact ⟨fun hu => maySpread_iff.mpr ⟨cs, hcs, hu⟩, fun hu => mustSpread_iff.mp (h u hu) cs hcs⟩
    refine eq_of_tops (tops_joins_perm hperm) fun u => ?_
    rw [Bool.eq_iff_iff, hspreads bs hperm, hspreads as (List.Perm.refl as)]

/-- An integer and a float have the numbers in common below the root, so together with the set of all
types they may come in any order. -/
example : orderFree [exact .integer, exact .float, all] = true := by decide

/-- **The order can matter.**  A boolean and a string have just the root in common, and with the set of
all types that stays so; but the set of all types, joined first, stays as it is.  So joins are not
associative. -/
theorem join_order_matters :
    let first := [exact .boolean, exact .string, all]
    let second := [all, exact .boolean, exact .string]
    second.Perm first ∧ (joins first = exact .any ∧ joins second = all) ∧
      joins second ≠ joins first ∧
      ((exact .boolean).join (exact .string)).join all ≠
        (exact .boolean).join ((exact .string).join all) := by
  decide

end QueryTyping.TypeSet
