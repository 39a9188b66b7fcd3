import QueryTyping.Proofs.Ty.Join
import QueryTyping.Proofs.TypeSet.Membership

/-!
# Joins of type ranges

The join of two ranges is a range of the join of their types.  It has the subtypes of that type if one
of the ranges has them and neither one is the type alone.  Of several ranges the closest is one with
the deepest type.

Main statements: `ty_join` gives the type of a join, `join_eq_covariant_iff` says when a join has the
subtypes, and `closest?_spec` what the choice of the closest range guarantees.
-/

namespace QueryTyping.TypeRange

variable {r s m : TypeRange} {a b u : Ty}

theorem ty_joinExact (a b : Ty) : (joinExact a b).ty = a.join b := by
  rw [joinExact]
  split
  · rename_i hab
    rw [Ty.join_of_accepts hab, ty]
  · split
    · rename_i hba
      rw [Ty.join_comm, Ty.join_of_accepts hba, ty]
    · rfl

/-- The highest type of a join is the join of the highest types. -/
theorem ty_join (r s : TypeRange) : (r.join s).ty = r.ty.join s.ty := by
  cases r with
  | exact a =>
      cases s with
      | exact b => rfl
      | covariant b => rw [join, ty_canonical, ty_joinExact, ty, ty]
  | covariant a =>
      cases s with
      | exact b => rw [join, ty_canonical, ty_joinExact, Ty.join_comm, ty, ty]
      | covariant b =>
          rw [join, ty_canonical]
          split
          · rename_i hab
            exact (Ty.join_of_accepts hab).symm
          · split
            · rename_i hba
              change b = a.join b
              rw [Ty.join_comm, Ty.join_of_accepts hba]
            · rfl

theorem canonical_join (r s : TypeRange) : (r.join s).canonical = r.join s := by
  cases r <;> cases s <;> rw [join, canonical_canonical]

theorem join_comm (r s : TypeRange) : r.join s = s.join r := by
  cases r with
  | exact a =>
      cases s with
      | exact b => rw [join, join, Ty.join_comm]
      | covariant b => rfl
  | covariant a =>
      cases s with
      | exact b => rfl
      | covariant b =>
          rw [join, join]
          by_cases hab : a.accepts b = true
          · by_cases hba : b.accepts a = true
            · rw [Ty.accepts_antisymm hab hba]
            · rw [if_pos hab, if_neg hba, if_pos hab]
          · by_cases hba : b.accepts a = true
            · rw [if_neg hab, if_pos hba, if_pos hba]
            · rw [if_neg hab, if_neg hba, if_neg hba, if_neg hab, Ty.join_comm]

/-! When a join has the subtypes -/

/-- The range lies among the subtypes of a type and is not that type alone. -/
def Under (u : Ty) (r : TypeRange) : Prop := u.accepts r.ty = true ∧ r ≠ exact u

theorem under_exact : (exact a).Under u ↔ u.accepts a = true ∧ a ≠ u := by
  rw [Under, ty, ne_eq, exact.injEq]

theorem under_covariant : (covariant a).Under u ↔ u.accepts a = true := by
  simp [Under, ty]

/-- A type alone and a type with its subtypes. -/
theorem join_exact_eq_covariant_iff (hb : (covariant b).canonical = covariant b) :
    (exact a).join (covariant b) = covariant u ↔ b = u ∧ (exact a).Under u := by
  rw [join, joinExact, under_exact]
  by_cases hab : a.accepts b = true
  · rw [if_pos hab, canonical_exact]
    constructor
    · intro h
      cases h
    · rintro ⟨rfl, hba, hne⟩
      exact absurd (Ty.accepts_antisymm hab hba) hne
  · rw [if_neg hab]
    by_cases hba : b.accepts a = true
    · rw [if_pos hba, hb, covariant.injEq]
      constructor
      · rintro rfl
        exact ⟨rfl, hba, fun heq => hab (heq ▸ Ty.accepts_refl a)⟩
      · exact fun h => h.1
    · rw [if_neg hba, canonical_exact]
      constructor
      · intro h
        cases h
      · rintro ⟨rfl, hba', -⟩
        exact absurd hba' hba

/-- Two types with their subtypes. -/
theorem join_covariant_eq_covariant_iff (ha : (covariant a).canonical = covariant a)
    (hb : (covariant b).canonical = covariant b) :
    (covariant a).join (covariant b) = covariant u ↔
      (a = u ∨ b = u) ∧ u.accepts a = true ∧ u.accepts b = true := by
  rw [join]
  by_cases hab : a.accepts b = true
  · rw [if_pos hab, ha, covariant.injEq]
    constructor
    · rintro rfl
      exact ⟨.inl rfl, Ty.accepts_refl a, hab⟩
    · rintro ⟨rfl | rfl, hua, -⟩
      · rfl
      · exact Ty.accepts_antisymm hab hua
  · rw [if_neg hab]
    by_cases hba : b.accepts a = true
    · rw [if_pos hba, hb, covariant.injEq]
      constructor
      · rintro rfl
        exact ⟨.inr rfl, hba, Ty.accepts_refl b⟩
      · rintro ⟨rfl | rfl, -, hub⟩
        · exact absurd hub hab
        · rfl
    · rw [if_neg hba, canonical_exact]
      constructor
      · intro h
        cases h
      · rintro ⟨rfl | rfl, hua, hub⟩
        · exact absurd hub hab
        · exact absurd hua hba

/-- **When a join has the subtypes.**  One of the ranges has them, and neither one is the type
alone. -/
theorem join_eq_covariant_iff (hr : r.canonical = r) (hs : s.canonical = s) :
    r.join s = covariant u ↔ (r = covariant u ∨ s = covariant u) ∧ r.Under u ∧ s.Under u := by
  -- a covariant range of `u` lies under `u`, which the statements for the two kinds leave out
  have hmixed : ∀ a b : Ty, b = u ∧ (exact a).Under u ↔
      covariant b = covariant u ∧ (exact a).Under u ∧ (covariant b).Under u := by
    intro a b
    rw [covariant.injEq, under_covariant]
    constructor
    · rintro ⟨rfl, ha⟩
      exact ⟨rfl, ha, Ty.accepts_refl b⟩
    · rintro ⟨rfl, ha, -⟩
      exact ⟨rfl, ha⟩
  cases r with
  | exact a =>
      cases s with
      | exact b => simp [join]
      | covariant b =>
          rw [join_exact_eq_covariant_iff hs, hmixed]
          simp
  | covariant a =>
      cases s with
      | exact b =>
          rw [join_comm, join_exact_eq_covariant_iff hr, hmixed, and_comm (a := (exact b).Under u)]
          simp
      | covariant b =>
          rw [join_covariant_eq_covariant_iff hr hs, under_covariant, under_covariant,
            covariant.injEq, covariant.injEq]

/-! The closest range -/

/-- Going on from the closest range so far, the choice only gets deeper. -/
theorem foldl_closer_spec (rs : List TypeRange) (best : TypeRange) :
    let m := rs.foldl (fun best s => if s.closerThan best then s else best) best
    (m = best ∨ m ∈ rs) ∧ best.ty.depth ≤ m.ty.depth ∧ ∀ s ∈ rs, s.ty.depth ≤ m.ty.depth := by
  induction rs generalizing best with
  | nil => exact ⟨.inl rfl, Nat.le_refl _, by simp⟩
  | cons r rs ih =>
      obtain ⟨hmem, hbest, hall⟩ := ih (if r.closerThan best then r else best)
      rw [List.foldl_cons]
      by_cases hr : r.closerThan best = true
      · rw [if_pos hr] at hmem hbest hall ⊢
        have hdeeper : best.ty.depth ≤ r.ty.depth := by
          simp only [closerThan, Bool.or_eq_true, Bool.and_eq_true, decide_eq_true_eq,
            beq_iff_eq] at hr
          omega
        refine ⟨.inr (List.mem_cons.mpr hmem), by omega, fun s hs => ?_⟩
        rcases List.mem_cons.mp hs with rfl | hs
        · exact hbest
        · exact hall s hs
      · rw [if_neg hr] at hmem hbest hall ⊢
        have hshallower : r.ty.depth ≤ best.ty.depth := by
          simp only [closerThan, Bool.or_eq_true, decide_eq_true_eq, not_or] at hr
          omega
        refine ⟨hmem.imp id (List.mem_cons_of_mem _), hbest, fun s hs => ?_⟩
        rcases List.mem_cons.mp hs with rfl | hs
        · omega
        · exact hall s hs

/-- **The closest range.**  It is one of the list, and no other one has a deeper type. -/
theorem closest?_spec {rs : List TypeRange} (h : closest? rs = some m) :
    m ∈ rs ∧ ∀ s ∈ rs, s.ty.depth ≤ m.ty.depth := by
  cases rs with
  | nil => cases h
  | cons r rs =>
      obtain rfl := Option.some.inj h
      obtain ⟨hmem, hfirst, hall⟩ := foldl_closer_spec rs r
      refine ⟨List.mem_cons.mpr hmem, fun s hs => ?_⟩
      rcases List.mem_cons.mp hs with rfl | hs
      · exact hfirst
      · exact hall s hs

end QueryTyping.TypeRange
