import Mathlib.Data.Set.Basic
import Mathlib.Order.BoundedOrder.Basic
import Mathlib.Order.Lattice
import QueryTyping.Proofs.TypeSet.Membership

/-!
# The lattice of type sets

What a set covers are the ranges that one of its own ranges covers.  Two sets that cover the same
ranges are equal, since each keeps exactly the highest of them.  A union covers what either set
covers.  An intersection covers what both cover, because two ranges that cover a third have a common
range that covers it too.  So type sets form a distributive lattice as sets of ranges do, with all
laws holding for the ranges as they are kept and not only for the members.

Main statements: `covered_union` and `covered_inter` say what the operations do to the covered
ranges, `covered_injective` that these determine the set, and `union_inter_laws` lists the laws.
-/

namespace QueryTyping

/-- The common range of ranges in their spelling is in its spelling. -/
theorem TypeRange.canonical_of_inter {r s u : TypeRange} (hr : r.canonical = r)
    (hs : s.canonical = s) (h : r.inter? s = some u) : u.canonical = u := by
  cases r with
  | exact a =>
      cases s with
      | exact b =>
          obtain ⟨-, rfl⟩ := Option.ite_none_right_eq_some.mp h |>.imp_right Option.some.inj
          rfl
      | covariant b =>
          obtain ⟨-, rfl⟩ := Option.ite_none_right_eq_some.mp h |>.imp_right Option.some.inj
          rfl
  | covariant a =>
      cases s with
      | exact b =>
          obtain ⟨-, rfl⟩ := Option.ite_none_right_eq_some.mp h |>.imp_right Option.some.inj
          rfl
      | covariant b =>
          rw [inter?] at h
          split at h
          · obtain rfl := Option.some.inj h
            exact hs
          · obtain ⟨-, rfl⟩ := Option.ite_none_right_eq_some.mp h |>.imp_right Option.some.inj
            exact hr

namespace TypeSet

variable {a b c : TypeSet} {r : TypeRange}

/-- The ranges that some range of the set covers. -/
def covered (a : TypeSet) : Set TypeRange := {r | ∃ s ∈ a.ranges, s.covers r = true}

theorem mem_covered : r ∈ a.covered ↔ ∃ s ∈ a.ranges, s.covers r = true := Iff.rfl

/-- What is made from ranges in their spelling covers what these ranges cover. -/
theorem mem_covered_ofRanges {rs : List TypeRange} (h : ∀ s ∈ rs, s.canonical = s) :
    r ∈ (ofRanges rs).covered ↔ ∃ s ∈ rs, s.covers r = true := by
  have hcanonical : rs.map TypeRange.canonical = rs :=
    (List.map_congr_left h).trans (List.map_id _)
  constructor
  · rintro ⟨s, hs, hcov⟩
    rw [mem_ranges_ofRanges, hcanonical] at hs
    exact ⟨s, hs.1, hcov⟩
  · rintro ⟨s, hs, hcov⟩
    obtain ⟨m, hm, hms, hmax⟩ := TypeRange.exists_maximal hs
    refine ⟨m, ?_, TypeRange.covers_trans hms hcov⟩
    rw [mem_ranges_ofRanges, hcanonical]
    exact ⟨hm, hmax⟩

theorem covered_union (a b : TypeSet) : (a.union b).covered = a.covered ∪ b.covered := by
  ext r
  have hcanonical : ∀ s ∈ a.ranges ++ b.ranges, s.canonical = s := by
    intro s hs
    exact (List.mem_append.mp hs).elim (a.canonical s) (b.canonical s)
  rw [union, mem_covered_ofRanges hcanonical]
  simp only [List.mem_append, or_and_right, exists_or]
  rfl

theorem covered_inter (a b : TypeSet) : (a.inter b).covered = a.covered ∩ b.covered := by
  ext r
  have hcanonical : ∀ u ∈ a.ranges.flatMap fun r => b.ranges.filterMap r.inter?,
      u.canonical = u := by
    intro u hu
    obtain ⟨s, hs, hu⟩ := List.mem_flatMap.mp hu
    obtain ⟨s', hs', hu⟩ := List.mem_filterMap.mp hu
    exact TypeRange.canonical_of_inter (a.canonical s hs) (b.canonical s' hs') hu
  rw [inter, mem_covered_ofRanges hcanonical]
  simp only [List.mem_flatMap, List.mem_filterMap]
  constructor
  · rintro ⟨u, ⟨s, hs, s', hs', hu⟩, hcov⟩
    obtain ⟨hsr, hsr'⟩ := TypeRange.covers_inter.mp ⟨u, hu, hcov⟩
    exact ⟨⟨s, hs, hsr⟩, s', hs', hsr'⟩
  · rintro ⟨⟨s, hs, hsr⟩, s', hs', hsr'⟩
    obtain ⟨u, hu, hcov⟩ := TypeRange.covers_inter.mpr ⟨hsr, hsr'⟩
    exact ⟨u, ⟨s, hs, s', hs', hu⟩, hcov⟩

theorem covered_empty : empty.covered = ∅ := by
  ext r
  simp [mem_covered]

theorem covered_all : all.covered = Set.univ := by
  ext r
  have hcanonical : ∀ s ∈ [TypeRange.covariant .any], s.canonical = s := by decide
  rw [all, covariant, mem_covered_ofRanges hcanonical]
  simp [Ty.any_accepts]

/-- A range of a set is one of the highest that the set covers. -/
theorem mem_ranges_iff :
    r ∈ a.ranges ↔ r ∈ a.covered ∧ ∀ s ∈ a.covered, s.covers r = true → s = r := by
  constructor
  · intro hr
    refine ⟨⟨r, hr, r.covers_refl⟩, ?_⟩
    rintro s ⟨s', hs', hcov⟩ hsr
    obtain rfl := a.unrelated r hr s' hs' (TypeRange.covers_trans hcov hsr)
    exact TypeRange.covers_antisymm hsr hcov
  · rintro ⟨⟨s, hs, hcov⟩, hmax⟩
    exact hmax s ⟨s, hs, s.covers_refl⟩ hcov ▸ hs

/-- **Sets that cover the same ranges are equal.** -/
theorem covered_injective : Function.Injective covered := by
  intro a b h
  refine ext_ranges (a.increasing.eq_of_mem_iff b.increasing fun r => ?_)
  rw [mem_ranges_iff, mem_ranges_iff, h]

/-- Each range of one set is covered by a range of the other. -/
instance : LE TypeSet := ⟨fun a b => ∀ r ∈ a.ranges, ∃ s ∈ b.ranges, s.covers r = true⟩

instance : LT TypeSet := ⟨fun a b => a ≤ b ∧ ¬ b ≤ a⟩

instance : DecidableLE TypeSet := fun a b =>
  inferInstanceAs (Decidable (∀ r ∈ a.ranges, ∃ s ∈ b.ranges, s.covers r = true))

theorem covered_subset_covered : a.covered ⊆ b.covered ↔ a ≤ b := by
  constructor
  · intro h r hr
    exact h ⟨r, hr, r.covers_refl⟩
  · rintro h r ⟨s, hs, hcov⟩
    obtain ⟨s', hs', hcov'⟩ := h s hs
    exact ⟨s', hs', TypeRange.covers_trans hcov' hcov⟩

/-- The members of a lower set are members of a higher one. -/
theorem mem_of_le {t : Ty} (h : a ≤ b) (ht : t ∈ a) : t ∈ b := by
  obtain ⟨r, hr, hcontains⟩ := mem_iff.mp ht
  obtain ⟨s, hs, hcov⟩ := h r hr
  exact mem_iff.mpr ⟨s, hs, TypeRange.contains_of_covers hcov hcontains⟩

instance : Max TypeSet := ⟨union⟩

instance : Min TypeSet := ⟨inter⟩

instance : DistribLattice TypeSet :=
  covered_injective.distribLattice covered covered_subset_covered
    (and_congr covered_subset_covered (not_congr covered_subset_covered)) covered_union
    covered_inter

instance : BoundedOrder TypeSet where
  top := all
  le_top _ := covered_subset_covered.mp (covered_all ▸ Set.subset_univ _)
  bot := empty
  bot_le _ := covered_subset_covered.mp (covered_empty ▸ Set.empty_subset _)

/-- **Type sets form a bounded distributive lattice.**  Union and intersection are commutative,
associative and idempotent, absorb each other and distribute over each other; the empty set is
neutral for union and absorbing for intersection, and the set of all types the other way round.
These are equalities of the ranges that are kept. -/
theorem union_inter_laws (a b c : TypeSet) :
    (a.union b = b.union a ∧ (a.union b).union c = a.union (b.union c) ∧ a.union a = a) ∧
      (a.inter b = b.inter a ∧ (a.inter b).inter c = a.inter (b.inter c) ∧ a.inter a = a) ∧
      (a.union (a.inter b) = a ∧ a.inter (a.union b) = a) ∧
      (a.union (b.inter c) = (a.union b).inter (a.union c) ∧
        a.inter (b.union c) = (a.inter b).union (a.inter c)) ∧
      (a.union empty = a ∧ a.inter empty = empty) ∧
      (a.inter all = a ∧ a.union all = all) :=
  ⟨⟨sup_comm a b, sup_assoc a b c, sup_idem a⟩, ⟨inf_comm a b, inf_assoc a b c, inf_idem a⟩,
    ⟨sup_inf_self, inf_sup_self⟩, ⟨sup_inf_left a b c, inf_sup_left a b c⟩,
    ⟨sup_bot_eq a, inf_bot_eq a⟩, ⟨inf_top_eq a, sup_top_eq a⟩⟩

end TypeSet
end QueryTyping
