import QueryTyping.Proofs.TypeSet.Elements
import QueryTyping.Proofs.TypeSet.RangeJoin
import QueryTyping.Proofs.TypeSet.Spelling

/-!
# Joins of type sets

A range of one set is joined with its closest counterpart in the other, so its type goes up to the
nearest supertype that the other set reaches as well; which of several closest counterparts is taken
does not matter.  A join has a type together with its subtypes if one of the sets has it so, and
neither has the type by itself and nothing below it.  The join has nothing else below such a type, so
bringing its ranges into their form loses no type.

Main statements: `mem_tops_join` and `spreads_join` say of a join what its highest types are and which
of them come with their subtypes, and `eq_of_tops` that this determines a set.  `reaches_join` says
where one gets to from a join.  `join_laws` gathers what follows: joins are commutative and
idempotent, and every type has itself or a supertype in a join.
-/

namespace QueryTyping.TypeSet

variable {a b : TypeSet} {t u : Ty} {r s m : TypeRange}

/-- The highest types of the ranges. -/
def tops (a : TypeSet) : List Ty := a.ranges.map TypeRange.ty

/-- Going up from some range of the set one comes to the type.  The empty set, which adds nothing to
a join, is no obstacle. -/
def reaches (a : TypeSet) (t : Ty) : Bool := a.isEmpty || a.tops.any t.accepts

/-- The set has the type together with its subtypes, by one range. -/
def spreads (a : TypeSet) (u : Ty) : Bool := a.ranges.contains (.covariant u)

/-- The set has the type together with its subtypes, or it reaches a proper subtype. -/
def admits (a : TypeSet) (u : Ty) : Bool := a.spreads u || u.children.any a.reaches

theorem mem_tops : u ∈ a.tops ↔ ∃ r ∈ a.ranges, r.ty = u := List.mem_map

theorem ty_mem_tops (h : r ∈ a.ranges) : r.ty ∈ a.tops := List.mem_map_of_mem h

theorem spreads_iff : a.spreads u = true ↔ .covariant u ∈ a.ranges := List.contains_iff_mem

theorem reaches_iff (h : a.isEmpty = false) :
    a.reaches t = true ↔ ∃ r ∈ a.ranges, t.accepts r.ty = true := by
  rw [reaches, h, Bool.false_or, List.any_eq_true]
  simp only [mem_tops, exists_exists_and_eq_and]

theorem reaches_ty (h : r ∈ a.ranges) (ht : t.accepts r.ty = true) : a.reaches t = true := by
  rw [reaches, Bool.or_eq_true, List.any_eq_true]
  exact .inr ⟨r.ty, ty_mem_tops h, ht⟩

theorem reaches_up (htu : t.accepts u = true) (h : a.reaches u = true) : a.reaches t = true := by
  rw [reaches, Bool.or_eq_true, List.any_eq_true] at h ⊢
  exact h.imp id fun ⟨v, hv, huv⟩ => ⟨v, hv, Ty.accepts_trans htu huv⟩

theorem isEmpty_eq_false_of_mem (h : r ∈ a.ranges) : a.isEmpty = false :=
  List.isEmpty_eq_false_iff_exists_mem.mpr ⟨r, h⟩

theorem eq_empty (h : a.isEmpty = true) : a = empty :=
  ext_ranges ((List.isEmpty_iff.mp h).trans ranges_empty.symm)

/-- **What determines a set.**  Sets with the same highest types, of which the same come with their
subtypes, are equal. -/
theorem eq_of_tops (htops : ∀ u, u ∈ a.tops ↔ u ∈ b.tops)
    (hspreads : ∀ u, a.spreads u = b.spreads u) : a = b := by
  have hexact : ∀ (c : TypeSet) (u : Ty),
      .exact u ∈ c.ranges ↔ u ∈ c.tops ∧ ¬ c.spreads u = true := by
    intro c u
    rw [spreads_iff]
    constructor
    · intro h
      exact ⟨mem_tops.mpr ⟨_, h, rfl⟩, fun hcov => not_exact_of_covariant hcov h⟩
    · rintro ⟨htop, hcov⟩
      obtain ⟨r, hr, rfl⟩ := mem_tops.mp htop
      cases r with
      | exact t => exact hr
      | covariant t => exact absurd hr hcov
  refine ext_ranges (a.increasing.eq_of_mem_iff b.increasing fun r => ?_)
  cases r with
  | exact u => rw [hexact, hexact, htops, hspreads]
  | covariant u => rw [← spreads_iff, ← spreads_iff, hspreads]

/-- A range that a covariant range of the same set covers is that range. -/
theorem eq_covariant (h : a.spreads u = true) (hr : r ∈ a.ranges) (hu : u.accepts r.ty = true) :
    r = .covariant u :=
  (a.unrelated r hr _ (spreads_iff.mp h) hu).symm

/-- Below a type that a set has with its subtypes the set reaches nothing. -/
theorem eq_of_spreads (h : a.spreads u = true) (ht : a.reaches t = true)
    (hut : u.accepts t = true) : t = u := by
  have hnonempty := isEmpty_eq_false_of_mem (spreads_iff.mp h)
  obtain ⟨r, hr, htr⟩ := (reaches_iff hnonempty).mp ht
  obtain rfl := eq_covariant h hr (Ty.accepts_trans hut htr)
  exact Ty.accepts_antisymm htr hut

/-- A type that a set has with its subtypes has some. -/
theorem children_ne_nil (h : a.spreads u = true) : u.children ≠ [] := by
  have hsub := TypeRange.hasSubtypes_of_canonical_eq (a.canonical _ (spreads_iff.mp h))
  obtain ⟨t, hut, hne⟩ := Ty.hasSubtypes_iff.mp hsub
  obtain ⟨c, hc, -⟩ := Ty.exists_child_accepts.mpr ⟨hut, hne.symm⟩
  exact List.ne_nil_of_mem hc

theorem admits_iff (h : a.isEmpty = false) : a.admits u = true ↔ ∃ r ∈ a.ranges, r.Under u := by
  rw [admits, Bool.or_eq_true, List.any_eq_true]
  constructor
  · rintro (hspreads | ⟨c, hc, hreaches⟩)
    · exact ⟨_, spreads_iff.mp hspreads, TypeRange.under_covariant.mpr (Ty.accepts_refl u)⟩
    · obtain ⟨r, hr, hcr⟩ := (reaches_iff h).mp hreaches
      obtain ⟨hur, hne⟩ := Ty.exists_child_accepts.mp ⟨c, hc, hcr⟩
      exact ⟨r, hr, hur, fun heq => hne (congrArg TypeRange.ty heq).symm⟩
  · rintro ⟨r, hr, hur, hne⟩
    by_cases hty : u = r.ty
    · cases r with
      | exact t => exact absurd (congrArg TypeRange.exact hty.symm) hne
      | covariant t => exact .inl (spreads_iff.mpr (hty ▸ hr))
    · obtain ⟨c, hc, hcr⟩ := Ty.exists_child_accepts.mpr ⟨hur, hty⟩
      exact .inr ⟨c, hc, reaches_ty hr hcr⟩

theorem admits_of_spreads (h : a.spreads u = true) : a.admits u = true := by
  rw [admits, h, Bool.true_or]

theorem admits_of_reaches {c : Ty} (hc : c ∈ u.children) (h : a.reaches c = true) :
    a.admits u = true := by
  rw [admits, Bool.or_eq_true, List.any_eq_true]
  exact .inr ⟨c, hc, h⟩

theorem admits_empty (h : u.children ≠ []) : empty.admits u = true := by
  obtain ⟨c, hc⟩ := List.exists_mem_of_ne_nil _ h
  exact admits_of_reaches hc rfl

/-! The ranges that a join is made from -/

/-- **The closest join.**  It is the join with some range of the set, and its type is the nearest
one that the set reaches. -/
theorem closestJoin_spec (h : closestJoin? r a = some m) :
    (∃ s ∈ a.ranges, m = r.join s) ∧ Ty.Nearest (a.reaches · = true) r.ty m.ty := by
  obtain ⟨hmem, hdeepest⟩ := TypeRange.closest?_spec h
  obtain ⟨s, hs, rfl⟩ := List.mem_map.mp hmem
  refine ⟨⟨s, hs, rfl⟩, ?_, ?_, fun v hv hreaches => ?_⟩
  · rw [TypeRange.ty_join]
    exact Ty.join_accepts_left _ _
  · rw [TypeRange.ty_join]
    exact reaches_ty hs (Ty.join_accepts_right _ _)
  · obtain ⟨s', hs', hvs'⟩ := (reaches_iff (isEmpty_eq_false_of_mem hs)).mp hreaches
    have hvjoin : v.accepts (r.join s').ty = true := by
      rw [TypeRange.ty_join]
      exact Ty.accepts_join_iff.mpr ⟨hv, hvs'⟩
    have habove : ∀ s : TypeRange, (r.join s).ty.accepts r.ty = true := by
      intro s
      rw [TypeRange.ty_join]
      exact Ty.join_accepts_left _ _
    have hdepth := hdeepest _ (List.mem_map_of_mem hs')
    exact Ty.accepts_trans hvjoin (Ty.accepts_of_depth_le (habove s') (habove s) hdepth)

/-- The types of the closest joins are the nearest ones that the set reaches. -/
theorem exists_closest_iff (hb : b.isEmpty = false) :
    (∃ r ∈ a.ranges, ∃ m, closestJoin? r b = some m ∧ m.ty = u) ↔
      ∃ t ∈ a.tops, Ty.Nearest (b.reaches · = true) t u := by
  constructor
  · rintro ⟨r, hr, m, hm, rfl⟩
    exact ⟨r.ty, ty_mem_tops hr, (closestJoin_spec hm).2⟩
  · rintro ⟨t, ht, hnearest⟩
    obtain ⟨r, hr, rfl⟩ := mem_tops.mp ht
    obtain ⟨m, hm⟩ := Option.isSome_iff_exists.mp (isSome_closestJoin (r := r) hb)
    exact ⟨r, hr, m, hm, (closestJoin_spec hm).2.unique hnearest⟩

/-- The closest joins of the ranges on both sides. -/
def bounds (a b : TypeSet) : List TypeRange :=
  a.ranges.filterMap (closestJoin? · b) ++ b.ranges.filterMap (closestJoin? · a)

theorem mem_bounds : m ∈ a.bounds b ↔
    (∃ r ∈ a.ranges, closestJoin? r b = some m) ∨ ∃ r ∈ b.ranges, closestJoin? r a = some m := by
  rw [bounds, List.mem_append, List.mem_filterMap, List.mem_filterMap]

theorem mem_bounds_comm : m ∈ a.bounds b ↔ m ∈ b.bounds a := by
  rw [mem_bounds, mem_bounds, or_comm]

theorem canonical_of_closest (h : closestJoin? r a = some m) : m.canonical = m := by
  obtain ⟨⟨s, -, rfl⟩, -⟩ := closestJoin_spec h
  exact TypeRange.canonical_join r s

theorem canonical_bounds (h : m ∈ a.bounds b) : m.canonical = m := by
  rcases mem_bounds.mp h with ⟨r, -, hm⟩ | ⟨r, -, hm⟩
  · exact canonical_of_closest hm
  · exact canonical_of_closest hm

/-- Both sets reach the types of the closest joins. -/
theorem reaches_bounds (h : m ∈ a.bounds b) : a.reaches m.ty = true ∧ b.reaches m.ty = true := by
  rcases mem_bounds.mp h with ⟨r, hr, hm⟩ | ⟨r, hr, hm⟩
  · obtain ⟨-, hnearest⟩ := closestJoin_spec hm
    exact ⟨reaches_ty hr hnearest.accepts, hnearest.holds⟩
  · obtain ⟨-, hnearest⟩ := closestJoin_spec hm
    exact ⟨hnearest.holds, reaches_ty hr hnearest.accepts⟩

/-- If one set has a type with its subtypes and the other one admits it, so have the closest
joins. -/
theorem covariant_mem_bounds_of_spreads (h : a.spreads u = true) (hb : b.isEmpty = false)
    (hadmits : b.admits u = true) : .covariant u ∈ a.bounds b := by
  obtain ⟨s, hs, hunder⟩ := (admits_iff hb).mp hadmits
  have ha := isEmpty_eq_false_of_mem (spreads_iff.mp h)
  obtain ⟨m, hm⟩ := Option.isSome_iff_exists.mp (isSome_closestJoin (r := s) ha)
  obtain ⟨⟨r, hr, rfl⟩, hnearest⟩ := closestJoin_spec hm
  -- the closest join of a range below `u` has the type `u`, so its counterpart is `u` and all below
  have hreaches : a.reaches u = true := reaches_ty (spreads_iff.mp h) (Ty.accepts_refl u)
  have hty : (s.join r).ty = u :=
    eq_of_spreads h hnearest.holds (hnearest.least u hunder.1 hreaches)
  have hur : u.accepts r.ty = true := by
    rw [← hty, TypeRange.ty_join]
    exact Ty.join_accepts_right _ _
  obtain rfl := eq_covariant h hr hur
  have hjoin : s.join (.covariant u) = .covariant u :=
    (TypeRange.join_eq_covariant_iff (b.canonical s hs) (a.canonical _ hr)).mpr
      ⟨.inr rfl, hunder, TypeRange.under_covariant.mpr (Ty.accepts_refl u)⟩
  rw [hjoin] at hm
  exact mem_bounds.mpr (.inr ⟨s, hs, hm⟩)

/-- If a closest join has a type with its subtypes, one of the sets has it so and both admit it. -/
theorem spreads_of_closest (hr : r ∈ a.ranges) (h : closestJoin? r b = some (.covariant u)) :
    (a.spreads u = true ∨ b.spreads u = true) ∧ a.admits u = true ∧ b.admits u = true := by
  obtain ⟨⟨s, hs, hjoin⟩, -⟩ := closestJoin_spec h
  obtain ⟨hspreads, hunder, hunder'⟩ :=
    (TypeRange.join_eq_covariant_iff (a.canonical r hr) (b.canonical s hs)).mp hjoin.symm
  refine ⟨?_, (admits_iff (isEmpty_eq_false_of_mem hr)).mpr ⟨r, hr, hunder⟩,
    (admits_iff (isEmpty_eq_false_of_mem hs)).mpr ⟨s, hs, hunder'⟩⟩
  rcases hspreads with rfl | rfl
  · exact .inl (spreads_iff.mpr hr)
  · exact .inr (spreads_iff.mpr hs)

theorem covariant_mem_bounds (ha : a.isEmpty = false) (hb : b.isEmpty = false) :
    .covariant u ∈ a.bounds b ↔
      (a.spreads u = true ∨ b.spreads u = true) ∧ a.admits u = true ∧ b.admits u = true := by
  constructor
  · intro h
    rcases mem_bounds.mp h with ⟨r, hr, hm⟩ | ⟨r, hr, hm⟩
    · exact spreads_of_closest hr hm
    · obtain ⟨hspreads, hadmits, hadmits'⟩ := spreads_of_closest hr hm
      exact ⟨hspreads.symm, hadmits', hadmits⟩
  · rintro ⟨hspreads | hspreads, hadmits, hadmits'⟩
    · exact covariant_mem_bounds_of_spreads hspreads hb hadmits'
    · exact mem_bounds_comm.mp (covariant_mem_bounds_of_spreads hspreads ha hadmits)

/-- A closest join that another one covers has the same type. -/
theorem ty_eq_of_covers (ha : a.isEmpty = false) (hb : b.isEmpty = false) (hm : m ∈ a.bounds b)
    (hs : s ∈ a.bounds b) (hcov : s.covers m = true) : s.ty = m.ty := by
  cases s with
  | exact t => rw [TypeRange.covers_exact.mp hcov]
  | covariant u =>
      obtain ⟨hreaches, hreaches'⟩ := reaches_bounds hm
      obtain ⟨hspreads | hspreads, -⟩ := (covariant_mem_bounds ha hb).mp hs
      · exact (eq_of_spreads hspreads hreaches hcov).symm
      · exact (eq_of_spreads hspreads hreaches' hcov).symm

/-! What is known of a join -/

theorem join_eq_ofRanges (ha : a.isEmpty = false) (hb : b.isEmpty = false) :
    a.join b = ofRanges (a.bounds b) := by
  simp only [join, ha, hb, Bool.false_eq_true, if_false]
  rfl

theorem mem_ranges_join (ha : a.isEmpty = false) (hb : b.isEmpty = false) :
    m ∈ (a.join b).ranges ↔
      m ∈ a.bounds b ∧ ∀ s ∈ a.bounds b, s.covers m = true → s = m := by
  have hcanonical : (a.bounds b).map TypeRange.canonical = a.bounds b :=
    (List.map_congr_left fun _ => canonical_bounds).trans (List.map_id _)
  rw [join_eq_ofRanges ha hb, mem_ranges_ofRanges, hcanonical]

theorem empty_join (a : TypeSet) : empty.join a = a := rfl

theorem join_empty (a : TypeSet) : a.join empty = a := by
  cases h : a.isEmpty with
  | true => rw [eq_empty h, empty_join]
  | false => simp only [join, h, Bool.false_eq_true, if_false]; rfl

/-- Bringing the closest joins into their form loses none of their types. -/
theorem mem_tops_join_of_nonempty (ha : a.isEmpty = false) (hb : b.isEmpty = false) :
    u ∈ (a.join b).tops ↔ ∃ m ∈ a.bounds b, m.ty = u := by
  rw [mem_tops]
  constructor
  · rintro ⟨m, hm, rfl⟩
    exact ⟨m, ((mem_ranges_join ha hb).mp hm).1, rfl⟩
  · rintro ⟨m, hm, rfl⟩
    obtain ⟨s, hs, hcov, hmax⟩ := TypeRange.exists_maximal hm
    exact ⟨s, (mem_ranges_join ha hb).mpr ⟨hs, hmax⟩, ty_eq_of_covers ha hb hm hs hcov⟩

/-- **The highest types of a join.**  They are those to which the highest types of either set go up
on the way to what the other one reaches. -/
theorem mem_tops_join : u ∈ (a.join b).tops ↔
    (∃ t ∈ a.tops, Ty.Nearest (b.reaches · = true) t u) ∨
      ∃ t ∈ b.tops, Ty.Nearest (a.reaches · = true) t u := by
  have hself : ∀ c : TypeSet,
      u ∈ c.tops ↔ ∃ t ∈ c.tops, Ty.Nearest (empty.reaches · = true) t u := by
    intro c
    have hnearest : ∀ t, Ty.Nearest (empty.reaches · = true) t u ↔ u = t :=
      fun t => Ty.Nearest.self_iff rfl
    simp only [hnearest, exists_eq_right']
  cases ha : a.isEmpty with
  | true =>
      rw [eq_empty ha, empty_join, ← hself]
      simp [tops]
  | false =>
      cases hb : b.isEmpty with
      | true =>
          rw [eq_empty hb, join_empty, ← hself]
          simp [tops]
      | false =>
          rw [mem_tops_join_of_nonempty ha hb, ← exists_closest_iff ha, ← exists_closest_iff hb]
          simp only [mem_bounds]
          grind

/-- **Which types of a join come with their subtypes.**  One of the sets has such a type with its
subtypes, and both admit it. -/
theorem spreads_join (a b : TypeSet) (u : Ty) :
    (a.join b).spreads u = ((a.spreads u || b.spreads u) && (a.admits u && b.admits u)) := by
  have hempty : ∀ c : TypeSet, c.spreads u = (c.spreads u && (c.admits u && empty.admits u)) := by
    intro c
    cases h : c.spreads u with
    | false => rfl
    | true => rw [admits_empty (children_ne_nil h), admits_of_spreads h]; rfl
  cases ha : a.isEmpty with
  | true =>
      have hnone : empty.spreads u = false := rfl
      rw [eq_empty ha, empty_join, hnone, Bool.false_or, Bool.and_comm (empty.admits u), ← hempty]
  | false =>
      cases hb : b.isEmpty with
      | true =>
          have hnone : empty.spreads u = false := rfl
          rw [eq_empty hb, join_empty, hnone, Bool.or_false, ← hempty]
      | false =>
          rw [Bool.eq_iff_iff, spreads_iff, mem_ranges_join ha hb]
          simp only [Bool.and_eq_true, Bool.or_eq_true, ← covariant_mem_bounds ha hb]
          refine and_iff_left_of_imp fun hu s hs hcov => ?_
          -- only a range of the same type covers it, which has the subtypes as well
          have hty := ty_eq_of_covers ha hb hu hs hcov
          cases s with
          | exact t => cases hcov
          | covariant t => exact congrArg TypeRange.covariant hty

/-- **Where one gets to from a join.**  Going up from a join one gets where one gets to from both
sets. -/
theorem reaches_join (a b : TypeSet) (t : Ty) :
    (a.join b).reaches t = (a.reaches t && b.reaches t) := by
  cases ha : a.isEmpty with
  | true => rw [eq_empty ha, empty_join]; rfl
  | false =>
      cases hb : b.isEmpty with
      | true =>
          have hall : empty.reaches t = true := rfl
          rw [eq_empty hb, join_empty, hall, Bool.and_true]
      | false =>
          have hjoin : (a.join b).isEmpty = false := by rw [isEmpty_join, ha, hb]; rfl
          have htops : (a.join b).reaches t = true ↔ ∃ m ∈ a.bounds b, t.accepts m.ty = true := by
            rw [reaches, hjoin, Bool.false_or, List.any_eq_true]
            simp only [mem_tops_join_of_nonempty ha hb, exists_exists_and_eq_and]
          rw [Bool.eq_iff_iff, Bool.and_eq_true, htops]
          constructor
          · rintro ⟨m, hm, htm⟩
            obtain ⟨hreaches, hreaches'⟩ := reaches_bounds hm
            exact ⟨reaches_up htm hreaches, reaches_up htm hreaches'⟩
          · rintro ⟨hreaches, hreaches'⟩
            obtain ⟨r, hr, htr⟩ := (reaches_iff ha).mp hreaches
            obtain ⟨m, hm⟩ := Option.isSome_iff_exists.mp (isSome_closestJoin (r := r) hb)
            exact ⟨m, mem_bounds.mpr (.inl ⟨r, hr, hm⟩), (closestJoin_spec hm).2.least t htr hreaches'⟩

/-! The laws of joins -/

theorem join_comm (a b : TypeSet) : a.join b = b.join a := by
  refine eq_of_tops (fun u => ?_) fun u => ?_
  · rw [mem_tops_join, mem_tops_join, or_comm]
  · rw [spreads_join, spreads_join, Bool.or_comm, Bool.and_comm (a.admits u)]

theorem join_self (a : TypeSet) : a.join a = a := by
  refine eq_of_tops (fun u => ?_) fun u => ?_
  · have hnearest : ∀ t ∈ a.tops, Ty.Nearest (a.reaches · = true) t u ↔ u = t := by
      intro t ht
      obtain ⟨r, hr, rfl⟩ := mem_tops.mp ht
      exact Ty.Nearest.self_iff (reaches_ty hr (Ty.accepts_refl r.ty))
    rw [mem_tops_join, or_self]
    constructor
    · rintro ⟨t, ht, hu⟩
      exact (hnearest t ht).mp hu ▸ ht
    · intro hu
      exact ⟨u, hu, (hnearest u hu).mpr rfl⟩
  · rw [spreads_join, Bool.or_self, Bool.and_self]
    cases h : a.spreads u with
    | false => rfl
    | true => exact admits_of_spreads h

/-- A highest type of a set is a member. -/
theorem mem_of_mem_tops (h : u ∈ a.tops) : u ∈ a := by
  obtain ⟨r, hr, rfl⟩ := mem_tops.mp h
  exact mem_iff.mpr ⟨r, hr, r.contains_ty⟩

theorem exists_top_of_mem (h : t ∈ a) : ∃ u ∈ a.tops, u.accepts t = true := by
  obtain ⟨r, hr, hcontains⟩ := mem_iff.mp h
  exact ⟨r.ty, ty_mem_tops hr, TypeRange.accepts_of_covers (TypeRange.contains_iff_covers.mp hcontains)⟩

/-- **Joins cover.**  A member of one of the sets has itself or a supertype in the join. -/
theorem exists_mem_join (h : t ∈ a) (b : TypeSet) : ∃ u, u.accepts t = true ∧ u ∈ a.join b := by
  obtain ⟨v, hv, hvt⟩ := exists_top_of_mem h
  obtain ⟨r, hr, rfl⟩ := mem_tops.mp hv
  cases hb : b.isEmpty with
  | true => exact ⟨r.ty, hvt, by rw [eq_empty hb, join_empty]; exact mem_of_mem_tops hv⟩
  | false =>
      obtain ⟨m, hm⟩ := Option.isSome_iff_exists.mp (isSome_closestJoin (r := r) hb)
      have hnearest := (closestJoin_spec hm).2
      have htop : m.ty ∈ (a.join b).tops := mem_tops_join.mpr (.inl ⟨r.ty, hv, hnearest⟩)
      exact ⟨m.ty, Ty.accepts_trans hnearest.accepts hvt, mem_of_mem_tops htop⟩

/-! Joins of lists -/

theorem joins_nil : joins [] = empty := rfl

theorem joins_singleton (a : TypeSet) : joins [a] = a := rfl

/-- The first two sets of a list are joined first. -/
theorem joins_cons_cons (a b : TypeSet) (as : List TypeSet) :
    joins (a :: b :: as) = joins (a.join b :: as) := rfl

/-- What holds of a list if it holds with the first two sets joined holds of every list. -/
theorem joining_induction {motive : List TypeSet → Prop} (nil : motive [])
    (single : ∀ a, motive [a]) (step : ∀ a b as, motive (a.join b :: as) → motive (a :: b :: as)) :
    ∀ as, motive as
  | [] => nil
  | [a] => single a
  | a :: b :: as => step a b as (joining_induction nil single step (a.join b :: as))
termination_by as => as.length

/-- A member of a set of a list has itself or a supertype in the join of the list. -/
theorem exists_mem_joins {as : List TypeSet} (h : ∃ c ∈ as, t ∈ c) :
    ∃ u, u.accepts t = true ∧ u ∈ joins as := by
  induction as using joining_induction generalizing t with
  | nil =>
      obtain ⟨c, hc, -⟩ := h
      cases hc
  | single a =>
      obtain ⟨c, hc, ht⟩ := h
      obtain rfl := List.mem_singleton.mp hc
      exact ⟨t, Ty.accepts_refl t, ht⟩
  | step a b as ih =>
      obtain ⟨c, hc, ht⟩ := h
      -- a member of one of the first two has a supertype in their join
      have hjoined : ∃ v, v.accepts t = true ∧ ∃ d ∈ a.join b :: as, v ∈ d := by
        rcases List.mem_cons.mp hc with rfl | hc
        · obtain ⟨v, hvt, hv⟩ := exists_mem_join ht b
          exact ⟨v, hvt, _, List.mem_cons_self, hv⟩
        · rcases List.mem_cons.mp hc with rfl | hc
          · obtain ⟨v, hvt, hv⟩ := exists_mem_join ht a
            exact ⟨v, hvt, _, List.mem_cons_self, join_comm c a ▸ hv⟩
          · exact ⟨t, Ty.accepts_refl t, c, List.mem_cons_of_mem _ hc, ht⟩
      obtain ⟨v, hvt, hv⟩ := hjoined
      obtain ⟨u, huv, hu⟩ := ih hv
      exact ⟨u, Ty.accepts_trans huv hvt, hu⟩

/-- The lists of a member are in the set of lists. -/
theorem list_mem_wrap (h : t ∈ a) : .list t ∈ a.wrap := mem_wrap.mpr ⟨t, rfl, h⟩

/-- **The laws of joins.**  Joins are commutative and idempotent, the empty set is neutral, and each
type in one of two sets has itself or a supertype in their join.  So does each type in one of the sets
of a list in their join, and lists of that type are in the set of lists made from it. -/
theorem join_laws (a b : TypeSet) (as : List TypeSet) :
    (a.join b = b.join a ∧ a.join a = a) ∧ (empty.join a = a ∧ a.join empty = a) ∧
      (∀ t, t ∈ a ∨ t ∈ b → ∃ u, u.accepts t = true ∧ u ∈ a.join b) ∧
      ∀ c ∈ as, ∀ t ∈ c, ∃ u, u.accepts t = true ∧ .list u ∈ (joins as).wrap := by
  refine ⟨⟨join_comm a b, join_self a⟩, ⟨empty_join a, join_empty a⟩, fun t ht => ?_,
    fun c hc t ht => ?_⟩
  · rcases ht with ht | ht
    · exact exists_mem_join ht b
    · exact join_comm b a ▸ exists_mem_join ht a
  · obtain ⟨u, hut, hu⟩ := exists_mem_joins ⟨c, hc, ht⟩
    exact ⟨u, hut, list_mem_wrap hu⟩

end QueryTyping.TypeSet
