import Mathlib.Data.List.Basic
import QueryTyping.Proofs.TypeSet.Lattice

/-!
# Lists and their elements

Wrapping and unwrapping go range by range.  Lists are ordered as their elements are, so a wider
range gives a wider range in both directions, and of the ranges that a set is made from it does not
matter which ones it keeps.  So both operations can be computed on any ranges that make up a set: on
those of two sets for their union, and on the lists of all ranges for what was wrapped before.

The root is special.  It accepts lists of everything, so the range of all types is its own range of
elements, and the root alone has itself as its elements.

Main statements: `ofRanges_filterMap` says that a monotone operation may be done before or after ranges
are left out, and `mem_wrap` and `mem_unwrap` what the two operations do to members.
`wrap_unwrap_laws` gathers the laws.
-/

namespace QueryTyping

namespace TypeRange

variable {r s u : TypeRange} {t : Ty}

theorem canonical_withTy (r : TypeRange) (t : Ty) : (r.withTy t).canonical = r.withTy t := by
  cases r <;> simp [withTy]

theorem ty_withTy (r : TypeRange) (t : Ty) : (r.withTy t).ty = t := by
  cases r <;> rw [withTy, ty_canonical] <;> rfl

theorem contains_exact_withTy {s t u : Ty} :
    ((exact s).withTy t).contains u = true ↔ t = u := by
  rw [withTy, contains_canonical, contains_exact]

theorem contains_covariant_withTy {s t u : Ty} :
    ((covariant s).withTy t).contains u = true ↔ t.accepts u = true := by
  rw [withTy, contains_canonical, contains_covariant]

/-- Above a type with subtypes the range of a type and its subtypes is in its spelling. -/
theorem covariant_withTy {s t : Ty} (h : t.hasSubtypes = true) :
    (covariant s).withTy t = covariant t := if_pos h

/-- The range of the lists of a range has the elements that the range was made of. -/
theorem elementRange_lists (h : r.canonical = r) :
    TypeSet.elementRange? (r.withTy (.list r.ty)) = some r := by
  cases r with
  | exact t => rfl
  | covariant t =>
      have ht : t.hasSubtypes = true := hasSubtypes_of_canonical_eq h
      have hlists : (covariant t).withTy (.list t) = covariant (.list t) :=
        covariant_withTy (t := .list t) ht
      rw [ty, hlists]
      exact congrArg some (covariant_withTy ht)

end TypeRange

namespace TypeSet

variable {a b : TypeSet} {r s u : TypeRange} {t : Ty}

/-! Monotone operations on ranges -/

/-- An operation that keeps ranges in their spelling and gives wider ranges for wider ones. -/
structure Monotone (f : TypeRange → Option TypeRange) : Prop where
  canonical : ∀ {r u}, r.canonical = r → f r = some u → u.canonical = u
  covers : ∀ {r s u}, s.canonical = s → s.covers r = true → f r = some u →
    ∃ v, f s = some v ∧ v.covers u = true

/-- **Left out before or after.**  A monotone operation on the ranges that a set keeps gives the
same set as on all ranges that it was made from. -/
theorem ofRanges_filterMap {f : TypeRange → Option TypeRange} (hf : Monotone f)
    {rs : List TypeRange} (hrs : ∀ r ∈ rs, r.canonical = r) :
    ofRanges ((ofRanges rs).ranges.filterMap f) = ofRanges (rs.filterMap f) := by
  have hcanonical : ∀ {qs : List TypeRange}, (∀ r ∈ qs, r.canonical = r) →
      ∀ u ∈ qs.filterMap f, u.canonical = u := by
    intro qs hqs u hu
    obtain ⟨r, hr, hfr⟩ := List.mem_filterMap.mp hu
    exact hf.canonical (hqs r hr) hfr
  apply covered_injective
  ext r
  rw [mem_covered_ofRanges (hcanonical (ofRanges rs).canonical),
    mem_covered_ofRanges (hcanonical hrs)]
  simp only [List.mem_filterMap]
  constructor
  · rintro ⟨u, ⟨s, hs, hfs⟩, hur⟩
    obtain ⟨s', hs', rfl⟩ := List.mem_map.mp (mem_ranges_ofRanges.mp hs).1
    exact ⟨u, ⟨s', hs', hrs s' hs' ▸ hfs⟩, hur⟩
  · rintro ⟨u, ⟨s, hs, hfs⟩, hur⟩
    obtain ⟨m, hm, hms⟩ : s ∈ (ofRanges rs).covered :=
      (mem_covered_ofRanges hrs).mpr ⟨s, hs, s.covers_refl⟩
    obtain ⟨v, hfm, hvu⟩ := hf.covers ((ofRanges rs).canonical m hm) hms hfs
    exact ⟨v, ⟨m, hm, hfm⟩, TypeRange.covers_trans hvu hur⟩

theorem ofRanges_ranges (a : TypeSet) : ofRanges a.ranges = a := ext_ranges a.maximal_ranges

/-- Ranges put together make up the union. -/
theorem ofRanges_append {rs ss : List TypeRange} (hrs : ∀ r ∈ rs, r.canonical = r)
    (hss : ∀ s ∈ ss, s.canonical = s) :
    ofRanges (rs ++ ss) = (ofRanges rs).union (ofRanges ss) := by
  have happend : ∀ r ∈ rs ++ ss, r.canonical = r := by
    intro r hr
    exact (List.mem_append.mp hr).elim (hrs r) (hss r)
  apply covered_injective
  ext r
  rw [covered_union, Set.mem_union, mem_covered_ofRanges happend, mem_covered_ofRanges hrs,
    mem_covered_ofRanges hss]
  simp only [List.mem_append, or_and_right, exists_or]

/-- **A monotone operation distributes over union.**  -/
theorem ofRanges_filterMap_union {f : TypeRange → Option TypeRange} (hf : Monotone f)
    (a b : TypeSet) :
    ofRanges ((a.union b).ranges.filterMap f) =
      (ofRanges (a.ranges.filterMap f)).union (ofRanges (b.ranges.filterMap f)) := by
  have hcanonical : ∀ c : TypeSet, ∀ u ∈ c.ranges.filterMap f, u.canonical = u := by
    intro c u hu
    obtain ⟨r, hr, hfr⟩ := List.mem_filterMap.mp hu
    exact hf.canonical (c.canonical r hr) hfr
  have happend : ∀ r ∈ a.ranges ++ b.ranges, r.canonical = r := by
    intro r hr
    exact (List.mem_append.mp hr).elim (a.canonical r) (b.canonical r)
  rw [union, ofRanges_filterMap hf happend, List.filterMap_append,
    ofRanges_append (hcanonical a) (hcanonical b)]

/-! Wrapping and unwrapping are monotone -/

theorem monotone_lists : Monotone fun r => some (r.withTy (.list r.ty)) where
  canonical _ h := by
    obtain rfl := Option.some.inj h
    exact TypeRange.canonical_withTy _ _
  covers {r s u} hs hcov h := by
    obtain rfl := Option.some.inj h
    refine ⟨_, rfl, ?_⟩
    cases s with
    | exact a =>
        obtain rfl := TypeRange.covers_exact.mp hcov
        exact TypeRange.covers_refl _
    | covariant a =>
        have ha : a.hasSubtypes = true := TypeRange.hasSubtypes_of_canonical_eq hs
        rw [TypeRange.ty, TypeRange.covariant_withTy (t := .list a) ha, TypeRange.covers_covariant,
          TypeRange.ty_withTy]
        exact Ty.list_accepts_iff.mpr ⟨r.ty, rfl, hcov⟩

theorem elementRange_of_list {e : Ty} (h : r.ty = .list e) :
    elementRange? r = some (r.withTy e) := by
  rw [elementRange?, h]

theorem elementRange_of_any (h : r.ty = .any) : elementRange? r = some r := by
  rw [elementRange?, h]

/-- Only the ranges of lists and those of the root have elements. -/
theorem elementRange_cases (h : elementRange? r = some u) :
    (∃ e, r.ty = .list e ∧ u = r.withTy e) ∨ r.ty = .any ∧ u = r := by
  unfold elementRange? at h
  split at h
  · rename_i e hlist
    exact .inl ⟨e, hlist, (Option.some.inj h).symm⟩
  · rename_i hany
    exact .inr ⟨hany, (Option.some.inj h).symm⟩
  · cases h

theorem monotone_elements : Monotone elementRange? where
  canonical {r u} hr h := by
    rcases elementRange_cases h with ⟨e, -, rfl⟩ | ⟨-, rfl⟩
    · exact TypeRange.canonical_withTy _ _
    · exact hr
  covers {r s u} hs hcov h := by
    cases s with
    | exact a =>
        obtain rfl := TypeRange.covers_exact.mp hcov
        exact ⟨u, h, u.covers_refl⟩
    | covariant a =>
        -- the range of all types is its own range of elements, and above everything
        have hroot : a = .any → ∃ v, elementRange? (.covariant a) = some v ∧ v.covers u = true := by
          rintro rfl
          exact ⟨_, rfl, Ty.any_accepts u.ty⟩
        rw [TypeRange.covers_covariant] at hcov
        rcases elementRange_cases h with ⟨e, hlist, rfl⟩ | ⟨hany, rfl⟩
        · rw [hlist] at hcov
          rcases Ty.accepts_list_iff.mp hcov with ha | ⟨b, rfl, hbe⟩
          · exact hroot ha
          · have hb : b.hasSubtypes = true :=
              TypeRange.hasSubtypes_of_canonical_eq (u := .list b) hs
            refine ⟨.covariant b, ?_, ?_⟩
            · rw [elementRange_of_list rfl, TypeRange.covariant_withTy hb]
            · rwa [TypeRange.covers_covariant, TypeRange.ty_withTy]
        · rw [hany] at hcov
          exact hroot (Ty.accepts_any_iff.mp hcov)

/-! Members -/

theorem wrap_eq (a : TypeSet) :
    a.wrap = ofRanges (a.ranges.filterMap fun r => some (r.withTy (.list r.ty))) := by
  rw [List.filterMap_eq_map', wrap]

/-- **What is wrapped are the lists of the members.**  -/
theorem mem_wrap {u : Ty} : u ∈ a.wrap ↔ ∃ t, u = .list t ∧ t ∈ a := by
  have hrange : ∀ r : TypeRange, (r.withTy (.list r.ty)).contains u = true ↔
      ∃ t, u = .list t ∧ r.contains t = true := by
    intro r
    cases r with
    | exact s =>
        rw [TypeRange.contains_exact_withTy, TypeRange.ty]
        simp only [TypeRange.contains_exact, exists_eq_right']
        exact eq_comm
    | covariant s => exact TypeRange.contains_covariant_withTy.trans Ty.list_accepts_iff
  rw [wrap, mem_ofRanges]
  simp only [List.mem_map, exists_exists_and_eq_and, hrange, mem_iff]
  constructor
  · rintro ⟨r, hr, t, hu, ht⟩
    exact ⟨t, hu, r, hr, ht⟩
  · rintro ⟨t, hu, r, hr, ht⟩
    exact ⟨r, hr, t, hu, ht⟩

/-- The elements of one range. -/
theorem contains_elementRange :
    (∃ u, elementRange? r = some u ∧ u.contains t = true) ↔
      r.contains (.list t) = true ∨ (t = .any ∧ r.contains .any = true) := by
  constructor
  · rintro ⟨u, hu, ht⟩
    rcases elementRange_cases hu with ⟨e, hlist, rfl⟩ | ⟨hany, rfl⟩
    · left
      cases r with
      | exact s =>
          rw [TypeRange.contains_exact_withTy] at ht
          exact TypeRange.contains_exact.mpr (ht ▸ hlist)
      | covariant s =>
          rw [TypeRange.contains_covariant_withTy] at ht
          obtain rfl : s = .list e := hlist
          exact Ty.list_accepts_iff.mpr ⟨t, rfl, ht⟩
    · cases u with
      | exact s =>
          obtain rfl : s = .any := hany
          exact .inr ⟨(TypeRange.contains_exact.mp ht).symm, TypeRange.contains_exact.mpr rfl⟩
      | covariant s =>
          obtain rfl : s = .any := hany
          exact .inl (Ty.any_accepts _)
  · rintro (h | ⟨rfl, h⟩)
    · cases r with
      | exact s =>
          have hlist : (TypeRange.exact s).ty = .list t := TypeRange.contains_exact.mp h
          exact ⟨_, elementRange_of_list hlist, TypeRange.contains_exact_withTy.mpr rfl⟩
      | covariant s =>
          rcases Ty.accepts_list_iff.mp h with rfl | ⟨e, rfl, het⟩
          · exact ⟨_, rfl, Ty.any_accepts t⟩
          · exact ⟨_, elementRange_of_list rfl, TypeRange.contains_covariant_withTy.mpr het⟩
    · have hany : r.ty = .any := by
        cases r with
        | exact s => exact TypeRange.contains_exact.mp h
        | covariant s => exact Ty.accepts_any_iff.mp h
      exact ⟨r, elementRange_of_any hany, h⟩

/-- **What is unwrapped are the elements of the member lists**, and the root where it is a member.
-/
theorem mem_unwrap : t ∈ a.unwrap ↔ .list t ∈ a ∨ (t = .any ∧ .any ∈ a) := by
  rw [unwrap, mem_ofRanges, mem_iff, mem_iff]
  simp only [List.mem_filterMap]
  constructor
  · rintro ⟨u, ⟨r, hr, hu⟩, ht⟩
    rcases contains_elementRange.mp ⟨u, hu, ht⟩ with hlist | ⟨rfl, hany⟩
    · exact .inl ⟨r, hr, hlist⟩
    · exact .inr ⟨rfl, r, hr, hany⟩
  · intro h
    obtain ⟨r, hr, hcontains⟩ : ∃ r ∈ a.ranges,
        r.contains (.list t) = true ∨ (t = .any ∧ r.contains .any = true) := by
      rcases h with ⟨r, hr, hlist⟩ | ⟨ht, r, hr, hany⟩
      · exact ⟨r, hr, .inl hlist⟩
      · exact ⟨r, hr, .inr ⟨ht, hany⟩⟩
    obtain ⟨u, hu, ht⟩ := contains_elementRange.mpr hcontains
    exact ⟨u, ⟨r, hr, hu⟩, ht⟩

/-- **Unwrapping undoes wrapping.**  -/
theorem unwrap_wrap (a : TypeSet) : a.wrap.unwrap = a := by
  have hcanonical : ∀ r ∈ a.ranges.map fun r => r.withTy (.list r.ty), r.canonical = r := by
    intro r hr
    obtain ⟨s, -, rfl⟩ := List.mem_map.mp hr
    exact TypeRange.canonical_withTy _ _
  have hback : ∀ r ∈ a.ranges, elementRange? (r.withTy (.list r.ty)) = some r :=
    fun r hr => TypeRange.elementRange_lists (a.canonical r hr)
  calc a.wrap.unwrap
      = ofRanges ((a.ranges.map fun r => r.withTy (.list r.ty)).filterMap elementRange?) :=
        ofRanges_filterMap monotone_elements hcanonical
    _ = ofRanges (a.ranges.map id) := by
        rw [List.filterMap_map]
        exact congrArg ofRanges (List.filterMap_eq_map_iff_forall_eq_some.mpr hback)
    _ = a := by rw [List.map_id, ofRanges_ranges]

/-- **The laws of wrapping and unwrapping.**  Unwrapping undoes wrapping.  What is wrapped are just
the lists of the members; what is unwrapped are the elements of the member lists, and the root where
it is a member.  Both distribute over union, for the ranges as they are kept. -/
theorem wrap_unwrap_laws (a b : TypeSet) :
    a.wrap.unwrap = a ∧
      ((∀ u ∈ a.wrap, ∃ t, u = .list t) ∧ ∀ t, .list t ∈ a.wrap ↔ t ∈ a) ∧
      (∀ t, t ∈ a.unwrap ↔ .list t ∈ a ∨ (t = .any ∧ .any ∈ a)) ∧
      (a.union b).wrap = a.wrap.union b.wrap ∧
      (a.union b).unwrap = a.unwrap.union b.unwrap := by
  refine ⟨unwrap_wrap a, ⟨fun u hu => ?_, fun t => ?_⟩, fun t => mem_unwrap, ?_, ?_⟩
  · obtain ⟨t, rfl, -⟩ := mem_wrap.mp hu
    exact ⟨t, rfl⟩
  · simp [mem_wrap]
  · rw [wrap_eq, wrap_eq, wrap_eq]
    exact ofRanges_filterMap_union monotone_lists a b
  · exact ofRanges_filterMap_union monotone_elements a b

end TypeSet
end QueryTyping
