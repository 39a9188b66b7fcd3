import QueryTyping.Proofs.Ty.Order
import QueryTyping.TypeSet.Basic

/-!
# The members of type sets

A set is kept as its maximal ranges, and nothing is lost by that: below each range of a list that is
left out stands a maximal one that covers it.  So the members of a set are those of the ranges it was
made from, and what the operations do to sets can be said about members.

Main statements: `exists_maximal` gives the maximal range that covers a range, `mem_ofRanges` says
that a set has the members of its ranges, and `isEmpty_join` and its companions when a set that was
computed from others is empty.  `members_of_operations` gathers what the operations do to members,
and says of every set that its ranges are canonical.
-/

namespace QueryTyping

/-- **Subtypes.**  A type has subtypes if it accepts some other type. -/
theorem Ty.hasSubtypes_iff {t : Ty} : t.hasSubtypes = true ↔ ∃ u, t.accepts u = true ∧ u ≠ t := by
  constructor
  · intro h
    induction t with
    | list t ih =>
        obtain ⟨u, hu, hne⟩ := ih h
        refine ⟨list u, ?_, fun heq => hne (list.inj heq)⟩
        rw [accepts_iff, ancestors]
        exact List.mem_append_left _ (List.mem_map_of_mem (accepts_iff.mp hu))
    | any => exact ⟨string, by decide⟩
    | number => exact ⟨integer, by decide⟩
    | map => exact ⟨node, by decide⟩
    | _ => cases h
  · rintro ⟨u, hu, hne⟩
    apply Classical.byContradiction
    intro hnone
    exact hne (TypeRange.eq_of_accepts_of_not_hasSubtypes (Bool.not_eq_true _ ▸ hnone) hu).symm

namespace TypeRange

@[simp] theorem contains_exact {s t : Ty} : (exact s).contains t = true ↔ s = t := beq_iff_eq

@[simp] theorem contains_covariant {s t : Ty} :
    (covariant s).contains t = true ↔ s.accepts t = true := Iff.rfl

@[simp] theorem covers_exact {s : Ty} {r : TypeRange} :
    (exact s).covers r = true ↔ r = exact s := by
  cases r with
  | exact t => rw [covers, beq_iff_eq, exact.injEq, eq_comm]
  | covariant t => simp [covers]

@[simp] theorem covers_covariant {s : Ty} {r : TypeRange} :
    (covariant s).covers r = true ↔ s.accepts r.ty = true := Iff.rfl

/-- The highest type of a range accepts that of every range it covers. -/
theorem accepts_of_covers {r s : TypeRange} (h : r.covers s = true) :
    r.ty.accepts s.ty = true := by
  cases r with
  | exact t =>
      obtain rfl := covers_exact.mp h
      exact Ty.accepts_refl t
  | covariant t => exact h

theorem covers_trans {r s u : TypeRange} (hrs : r.covers s = true) (hsu : s.covers u = true) :
    r.covers u = true := by
  cases r with
  | exact t =>
      obtain rfl := covers_exact.mp hrs
      exact hsu
  | covariant t => exact Ty.accepts_trans hrs (accepts_of_covers hsu)

theorem covers_antisymm {r s : TypeRange} (hrs : r.covers s = true) (hsr : s.covers r = true) :
    r = s := by
  cases r with
  | exact t =>
      cases s with
      | exact t' => exact congrArg exact (by simpa [covers] using hrs)
      | covariant t' => cases hrs
  | covariant t =>
      cases s with
      | exact t' => cases hsr
      | covariant t' => exact congrArg covariant (Ty.accepts_antisymm hrs hsr)

theorem covers_refl (r : TypeRange) : r.covers r = true := by
  cases r with
  | exact t => exact beq_self_eq_true t
  | covariant t => exact Ty.accepts_refl t

/-- What a range contains is what it covers as a range of one type. -/
theorem contains_iff_covers {r : TypeRange} {t : Ty} :
    r.contains t = true ↔ r.covers (exact t) = true := by
  cases r with
  | exact s => exact Iff.rfl
  | covariant s => exact Iff.rfl

theorem contains_of_covers {r s : TypeRange} (h : r.covers s = true) {t : Ty}
    (ht : s.contains t = true) : r.contains t = true := by
  rw [contains_iff_covers] at ht ⊢
  exact covers_trans h ht

/-- A range is not empty: its own type is in it. -/
theorem contains_ty (r : TypeRange) : r.contains r.ty = true := by
  cases r with
  | exact t => exact beq_self_eq_true t
  | covariant t => exact Ty.accepts_refl t

/-- **Maximal ranges.**  Each range of a list is covered by one that no other range covers. -/
theorem exists_maximal {rs : List TypeRange} {r : TypeRange} (hr : r ∈ rs) :
    ∃ m ∈ rs, m.covers r = true ∧ ∀ s ∈ rs, s.covers m = true → s = m := by
  induction rs generalizing r with
  | nil => cases hr
  | cons c rs ih =>
      -- a maximal range of the rest is maximal, unless the new range covers it and is maximal then
      have extend : ∀ m ∈ rs, (∀ s ∈ rs, s.covers m = true → s = m) →
          ∃ m' ∈ c :: rs, m'.covers m = true ∧ ∀ s ∈ c :: rs, s.covers m' = true → s = m' := by
        intro m hm hmax
        by_cases hc : c.covers m = true
        · refine ⟨c, List.mem_cons_self, hc, fun s hs hcov => ?_⟩
          rcases List.mem_cons.mp hs with rfl | hs
          · rfl
          · obtain rfl := hmax s hs (covers_trans hcov hc)
            exact covers_antisymm hcov hc
        · refine ⟨m, List.mem_cons_of_mem _ hm, covers_refl m, fun s hs hcov => ?_⟩
          rcases List.mem_cons.mp hs with rfl | hs
          · exact absurd hcov hc
          · exact hmax s hs hcov
      -- below a range of the rest, the hypothesis gives a maximal range to extend
      have below : ∀ d ∈ rs, ∃ m ∈ c :: rs, m.covers d = true ∧
          ∀ s ∈ c :: rs, s.covers m = true → s = m := by
        intro d hd
        obtain ⟨m, hm, hcov, hmax⟩ := ih hd
        obtain ⟨m', hm', hcov', hmax'⟩ := extend m hm hmax
        exact ⟨m', hm', covers_trans hcov' hcov, hmax'⟩
      rcases List.mem_cons.mp hr with rfl | hr
      · by_cases hcovered : ∃ d ∈ rs, d.covers r = true
        · obtain ⟨d, hd, hdr⟩ := hcovered
          obtain ⟨m, hm, hcov, hmax⟩ := below d hd
          exact ⟨m, hm, covers_trans hcov hdr, hmax⟩
        · refine ⟨r, List.mem_cons_self, covers_refl r, fun s hs hcov => ?_⟩
          rcases List.mem_cons.mp hs with rfl | hs
          · rfl
          · exact absurd ⟨s, hs, hcov⟩ hcovered
      · exact below r hr

/-- **Common ranges.**  The common range of two ranges covers what both of them cover.  Two types
that accept a third can be compared, so there is one whenever both cover something. -/
theorem covers_inter {r s u : TypeRange} :
    (∃ v, r.inter? s = some v ∧ v.covers u = true) ↔ r.covers u = true ∧ s.covers u = true := by
  cases r with
  | exact a =>
      cases s with
      | exact b =>
          simp only [inter?, covers_exact, Option.ite_none_right_eq_some]
          grind [covers_exact]
      | covariant b =>
          simp only [inter?, covers_exact, covers_covariant, Option.ite_none_right_eq_some]
          grind [covers_exact, ty]
  | covariant a =>
      cases s with
      | exact b =>
          simp only [inter?, covers_exact, covers_covariant, Option.ite_none_right_eq_some]
          grind [covers_exact, ty]
      | covariant b =>
          rw [covers_covariant, covers_covariant]
          by_cases hab : a.accepts b = true
          · have hinter : inter? (covariant a) (covariant b) = some (covariant b) := by
              simp [inter?, hab]
            simp only [hinter, Option.some.injEq, exists_eq_left', covers_covariant]
            exact ⟨fun hb => ⟨Ty.accepts_trans hab hb, hb⟩, fun h => h.2⟩
          · by_cases hba : b.accepts a = true
            · have hinter : inter? (covariant a) (covariant b) = some (covariant a) := by
                simp [inter?, hab, hba]
              simp only [hinter, Option.some.injEq, exists_eq_left', covers_covariant]
              exact ⟨fun ha => ⟨ha, Ty.accepts_trans hba ha⟩, fun h => h.1⟩
            · have hinter : inter? (covariant a) (covariant b) = none := by
                simp [inter?, hab, hba]
              rw [hinter]
              constructor
              · rintro ⟨u, hu, -⟩
                cases hu
              · rintro ⟨ha, hb⟩
                rcases Ty.accepts_total_of_accepts ha hb with h | h
                · exact absurd h hab
                · exact absurd h hba

/-- A range of subtypes that is kept in its spelling is one of a type that has subtypes. -/
theorem hasSubtypes_of_canonical_eq {r : TypeRange} {u : Ty} (h : r.canonical = covariant u) :
    u.hasSubtypes = true := by
  cases r with
  | exact t => cases h
  | covariant t =>
      rw [canonical_covariant] at h
      split at h
      · rename_i ht
        obtain rfl := covariant.inj h
        exact ht
      · cases h

/-- The common range of two ranges has their common members. -/
theorem contains_inter {r s : TypeRange} {t : Ty} :
    (∃ u, r.inter? s = some u ∧ u.contains t = true) ↔
      r.contains t = true ∧ s.contains t = true := by
  simp only [contains_iff_covers]
  exact covers_inter

/-- Two ranges have a common range if they share a member. -/
theorem isSome_inter {r s : TypeRange} :
    (r.inter? s).isSome = true ↔ ∃ t, r.contains t = true ∧ s.contains t = true := by
  rw [Option.isSome_iff_exists]
  constructor
  · rintro ⟨u, hu⟩
    exact ⟨u.ty, contains_inter.mp ⟨u, hu, u.contains_ty⟩⟩
  · rintro ⟨t, ht⟩
    obtain ⟨u, hu, -⟩ := contains_inter.mpr ht
    exact ⟨u, hu⟩

end TypeRange

namespace TypeSet

variable {a b : TypeSet} {t : Ty}

theorem mem_iff : t ∈ a ↔ ∃ r ∈ a.ranges, r.contains t = true := by
  change a.contains t = true ↔ _
  rw [contains, List.any_eq_true]

/-- **The members of a set are those of the ranges it was made from.** -/
theorem mem_ofRanges {rs : List TypeRange} :
    t ∈ ofRanges rs ↔ ∃ r ∈ rs, r.contains t = true := by
  rw [mem_iff]
  constructor
  · rintro ⟨r, hr, ht⟩
    obtain ⟨s, hs, rfl⟩ := List.mem_map.mp (mem_ranges_ofRanges.mp hr).1
    exact ⟨s, hs, by rwa [TypeRange.contains_canonical] at ht⟩
  · rintro ⟨r, hr, ht⟩
    obtain ⟨m, hm, hcov, hmax⟩ :=
      TypeRange.exists_maximal (List.mem_map_of_mem (f := TypeRange.canonical) hr)
    have hcanonical : r.canonical.contains t = true := by rwa [TypeRange.contains_canonical]
    exact ⟨m, mem_ranges_ofRanges.mpr ⟨hm, hmax⟩, TypeRange.contains_of_covers hcov hcanonical⟩

@[simp] theorem mem_covariant {s : Ty} : t ∈ covariant s ↔ s.accepts t = true := by
  rw [covariant, mem_ofRanges]
  simp

@[simp] theorem mem_all : t ∈ all := mem_covariant.mpr (Ty.any_accepts t)

@[simp] theorem mem_exact {s : Ty} : t ∈ exact s ↔ s = t := by
  rw [exact, mem_ofRanges]
  simp

/-- **What is in a union is in one of the sets.** -/
@[simp] theorem mem_union : t ∈ a.union b ↔ t ∈ a ∨ t ∈ b := by
  rw [union, mem_ofRanges, mem_iff, mem_iff]
  simp only [List.mem_append, or_and_right, exists_or]

/-- **What is in an intersection is in both sets.** -/
@[simp] theorem mem_inter : t ∈ a.inter b ↔ t ∈ a ∧ t ∈ b := by
  rw [inter, mem_ofRanges, mem_iff, mem_iff]
  simp only [List.mem_flatMap, List.mem_filterMap]
  constructor
  · rintro ⟨u, ⟨r, hr, s, hs, hu⟩, ht⟩
    obtain ⟨hrt, hst⟩ := TypeRange.contains_inter.mp ⟨u, hu, ht⟩
    exact ⟨⟨r, hr, hrt⟩, s, hs, hst⟩
  · rintro ⟨⟨r, hr, hrt⟩, s, hs, hst⟩
    obtain ⟨u, hu, ht⟩ := TypeRange.contains_inter.mpr ⟨hrt, hst⟩
    exact ⟨u, ⟨r, hr, s, hs, hu⟩, ht⟩

/-! Empty sets -/

theorem isEmpty_eq_false_iff : a.isEmpty = false ↔ ∃ t, t ∈ a := by
  rw [isEmpty, List.isEmpty_eq_false_iff_exists_mem]
  constructor
  · rintro ⟨r, hr⟩
    exact ⟨r.ty, mem_iff.mpr ⟨r, hr, r.contains_ty⟩⟩
  · rintro ⟨t, ht⟩
    obtain ⟨r, hr, -⟩ := mem_iff.mp ht
    exact ⟨r, hr⟩

theorem isEmpty_iff : a.isEmpty = true ↔ ∀ t, t ∉ a := by
  rw [← Bool.not_eq_false, isEmpty_eq_false_iff, not_exists]

/-- **Sets meet in a common member.** -/
theorem meets_iff : a.meets b = true ↔ ∃ t, t ∈ a ∧ t ∈ b := by
  simp only [meets, List.any_eq_true, TypeRange.isSome_inter, mem_iff]
  constructor
  · rintro ⟨r, hr, s, hs, t, hrt, hst⟩
    exact ⟨t, ⟨r, hr, hrt⟩, s, hs, hst⟩
  · rintro ⟨t, ⟨r, hr, hrt⟩, s, hs, hst⟩
    exact ⟨r, hr, s, hs, t, hrt, hst⟩

theorem isEmpty_inter (a b : TypeSet) : (a.inter b).isEmpty = !a.meets b := by
  rw [Bool.eq_iff_iff, Bool.not_eq_true', ← Bool.not_eq_true, meets_iff, isEmpty_iff]
  simp

/-- No range is empty, so only the set without ranges is. -/
@[simp] theorem isEmpty_ofRanges (rs : List TypeRange) : (ofRanges rs).isEmpty = rs.isEmpty := by
  cases rs with
  | nil => rfl
  | cons r rs =>
      rw [List.isEmpty_cons, isEmpty_eq_false_iff]
      exact ⟨r.ty, mem_ofRanges.mpr ⟨r, List.mem_cons_self, r.contains_ty⟩⟩

@[simp] theorem isEmpty_exact (t : Ty) : (exact t).isEmpty = false := isEmpty_ofRanges _

@[simp] theorem isEmpty_covariant (t : Ty) : (covariant t).isEmpty = false := isEmpty_ofRanges _

@[simp] theorem isEmpty_all : all.isEmpty = false := isEmpty_covariant .any

@[simp] theorem isEmpty_wrap (a : TypeSet) : a.wrap.isEmpty = a.isEmpty := by
  rw [wrap, isEmpty_ofRanges, List.isEmpty_map, isEmpty]

@[simp] theorem isEmpty_union (a b : TypeSet) : (a.union b).isEmpty = (a.isEmpty && b.isEmpty) := by
  rw [union, isEmpty_ofRanges, isEmpty, isEmpty]
  cases a.ranges <;> rfl

theorem isSome_closestJoin {r : TypeRange} (h : a.isEmpty = false) :
    (closestJoin? r a).isSome = true := by
  obtain ⟨s, hs⟩ := List.isEmpty_eq_false_iff_exists_mem.mp h
  cases hranges : a.ranges with
  | nil => rw [hranges] at hs; cases hs
  | cons s rs => simp [closestJoin?, TypeRange.closest?, hranges]

/-- A join is empty only if both sets are. -/
@[simp] theorem isEmpty_join (a b : TypeSet) : (a.join b).isEmpty = (a.isEmpty && b.isEmpty) := by
  unfold join
  cases ha : a.isEmpty with
  | true => simp
  | false =>
      cases hb : b.isEmpty with
      | true => simp [ha]
      | false =>
          obtain ⟨r, hr⟩ := List.isEmpty_eq_false_iff_exists_mem.mp ha
          obtain ⟨s, hs⟩ := Option.isSome_iff_exists.mp (isSome_closestJoin (r := r) hb)
          have hmem : s ∈ a.ranges.filterMap (closestJoin? · b) := List.mem_filterMap.mpr ⟨r, hr, hs⟩
          simp only [Bool.false_eq_true, if_false, isEmpty_ofRanges, Bool.and_self]
          exact List.isEmpty_eq_false_iff_exists_mem.mpr ⟨s, List.mem_append_left _ hmem⟩

/-- What is put together from sets, by an operation that is empty only on empty sets, is empty only
if all of them are. -/
theorem isEmpty_foldl {op : TypeSet → TypeSet → TypeSet}
    (hop : ∀ a b, (op a b).isEmpty = (a.isEmpty && b.isEmpty)) (as : List TypeSet) (a : TypeSet) :
    (as.foldl op a).isEmpty = (a.isEmpty && as.all isEmpty) := by
  induction as generalizing a with
  | nil => simp
  | cons b as ih => rw [List.foldl_cons, ih, hop, List.all_cons, Bool.and_assoc]

theorem isEmpty_unions (as : List TypeSet) : (unions as).isEmpty = as.all isEmpty :=
  isEmpty_foldl isEmpty_union as empty

theorem isEmpty_joins (as : List TypeSet) : (joins as).isEmpty = as.all isEmpty :=
  isEmpty_foldl isEmpty_join as empty

/-- What has a replacement is not empty. -/
theorem isEmpty_orElse (h : b.isEmpty = false) : (a.orElse b).isEmpty = false := by
  unfold orElse
  split
  · exact h
  · simpa using ‹¬a.isEmpty = true›

/-! The form in which sets are kept -/

/-- No range of the list is covered by another one, and none stands for the subtypes of a type
that has none. -/
structure Canonical (rs : List TypeRange) : Prop where
  unrelated : ∀ r ∈ rs, ∀ s ∈ rs, s.covers r = true → s = r
  subtypes : ∀ u, .covariant u ∈ rs → ∃ t, u.accepts t = true ∧ t ≠ u

/-- **What is kept is canonical.**  From any list of ranges a canonical one is made. -/
theorem canonical_maximal (rs : List TypeRange) : Canonical (maximal rs) := by
  constructor
  · intro r hr s hs hcov
    exact (mem_maximal.mp hr).2 s (mem_maximal.mp hs).1 hcov
  · intro u hu
    obtain ⟨r, -, hr⟩ := List.mem_map.mp (mem_maximal.mp hu).1
    exact Ty.hasSubtypes_iff.mp (TypeRange.hasSubtypes_of_canonical_eq hr)

/-- What is kept stays as it is when a set is made from it again. -/
theorem maximal_ranges (a : TypeSet) : maximal a.ranges = a.ranges := by
  have hcanonical : a.ranges.map TypeRange.canonical = a.ranges :=
    (List.map_congr_left a.canonical).trans (List.map_id _)
  refine Increasing.eq_of_mem_iff (ofRanges a.ranges).increasing a.increasing fun r => ?_
  rw [mem_maximal, hcanonical]
  exact and_iff_left_of_imp fun hr => a.unrelated r hr

theorem canonical_ranges (a : TypeSet) : Canonical a.ranges :=
  a.maximal_ranges ▸ canonical_maximal a.ranges

/-- **The operations on sets mean what they say.**  Union, intersection, meeting, emptiness and the
sets of one type and of its subtypes are what they are for the members; and the ranges of every set,
and whatever is kept of any list of ranges, are canonical. -/
theorem members_of_operations (a b : TypeSet) :
    (∀ t, t ∈ a.union b ↔ t ∈ a ∨ t ∈ b) ∧
      (∀ t, t ∈ a.inter b ↔ t ∈ a ∧ t ∈ b) ∧
      (a.meets b = true ↔ ∃ t, t ∈ a ∧ t ∈ b) ∧
      (a.meets b = true ↔ (a.inter b).isEmpty = false) ∧
      (a.isEmpty = true ↔ ∀ t, t ∉ a) ∧
      (∀ u t, t ∈ exact u ↔ u = t) ∧
      (∀ u t, t ∈ covariant u ↔ u.accepts t = true) ∧
      Canonical a.ranges ∧ ∀ rs, Canonical (maximal rs) := by
  refine ⟨fun t => mem_union, fun t => mem_inter, meets_iff, ?_, isEmpty_iff,
    fun u t => mem_exact, fun u t => mem_covariant, canonical_ranges a, canonical_maximal⟩
  rw [isEmpty_inter, Bool.not_eq_false']

end TypeSet
end QueryTyping
