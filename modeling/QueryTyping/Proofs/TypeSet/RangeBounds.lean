import QueryTyping.Proofs.TypeSet.RangeJoin

/-!
# What the join of two ranges contains

The bounds of two ranges are the joins of a member of the one with a member of the other.  If neither of
two types accepts the other, all types below the one have the same join with all types below the other,
for a common supertype of two of these cannot stand below either type.  So there is a single bound
unless one of the highest types accepts the other, and where the join of the ranges is one type, that
type is the bound.

Otherwise the join is a type with all of its subtypes.  This holds every bound, but also types that are
none: a type has at least two children, which cannot be compared, so what is above something below the
one is not below the other.

Main statements: `contains_join` says that a join contains the bounds, `contains_join_iff` that a join
of one type contains nothing else, and `exists_not_bound` what else there is below a type.
`join_bounds` puts them together.
-/

namespace QueryTyping

namespace Ty

variable {a b c d u x y : Ty}

/-- A common supertype of types below two types that cannot be compared is above the first of them. -/
theorem join_accepts_of_incomparable (hab : ¬ a.accepts b = true) (hba : ¬ b.accepts a = true)
    (hx : a.accepts x = true) (hy : b.accepts y = true) : (x.join y).accepts a = true := by
  rcases accepts_total_of_accepts (join_accepts_left x y) hx with h | h
  · exact h
  · have hay : a.accepts y = true := accepts_trans h (join_accepts_right x y)
    rcases accepts_total_of_accepts hay hy with h | h
    · exact absurd h hab
    · exact absurd h hba

/-- **Types that cannot be compared.**  What is below the one has the same join with all that is below
the other. -/
theorem join_eq_of_incomparable (hab : ¬ a.accepts b = true) (hba : ¬ b.accepts a = true)
    (hx : a.accepts x = true) (hy : b.accepts y = true) : x.join y = a.join b := by
  have hleft : (x.join y).accepts a = true := join_accepts_of_incomparable hab hba hx hy
  have hright : (x.join y).accepts b = true :=
    join_comm x y ▸ join_accepts_of_incomparable hba hab hy hx
  apply accepts_antisymm
  · exact accepts_join_iff.mpr ⟨hleft, hright⟩
  · exact accepts_join_iff.mpr
      ⟨accepts_trans (join_accepts_left a b) hx, accepts_trans (join_accepts_right a b) hy⟩

/-- Children of one type cannot be compared. -/
theorem eq_of_mem_children (hc : c ∈ u.children) (hd : d ∈ u.children) (h : c.accepts d = true) :
    c = d := by
  rcases accepts_iff_parent.mp h with heq | ⟨wider, hparent, hwider⟩
  · exact heq
  · obtain rfl := Option.some.inj ((mem_children.mp hd).symm.trans hparent)
    exact absurd (accepts_antisymm hwider (accepts_of_mem_children hc)) (ne_of_mem_children hc)

/-- No child is the only one. -/
theorem exists_other_child (hc : c ∈ u.children) : ∃ d ∈ u.children, d ≠ c := by
  induction u generalizing c with
  | any =>
      by_cases h : c = boolean
      · exact ⟨string, by decide, by rw [h]; decide⟩
      · exact ⟨boolean, by decide, Ne.symm h⟩
  | number =>
      by_cases h : c = integer
      · exact ⟨float, by decide, by rw [h]; decide⟩
      · exact ⟨integer, by decide, Ne.symm h⟩
  | map =>
      by_cases h : c = node
      · exact ⟨relationship, by decide, by rw [h]; decide⟩
      · exact ⟨node, by decide, Ne.symm h⟩
  | list t ih =>
      obtain ⟨c, hct, rfl⟩ := List.mem_map.mp hc
      obtain ⟨d, hd, hne⟩ := ih hct
      exact ⟨list d, List.mem_map_of_mem hd, fun heq => hne (list.inj heq)⟩
  | _ => cases hc

end Ty

namespace TypeRange

variable {r s : TypeRange} {a b t u x y : Ty}

/-- The type is the join of a member of the one range with a member of the other. -/
def Bound (r s : TypeRange) (t : Ty) : Prop :=
  ∃ x y, r.contains x = true ∧ s.contains y = true ∧ x.join y = t

theorem bound_comm : Bound r s t ↔ Bound s r t := by
  constructor
  · rintro ⟨x, y, hx, hy, rfl⟩
    exact ⟨y, x, hy, hx, Ty.join_comm y x⟩
  · rintro ⟨y, x, hy, hx, rfl⟩
    exact ⟨x, y, hx, hy, Ty.join_comm x y⟩

/-- The join of the highest types is a bound. -/
theorem bound_ty (r s : TypeRange) : Bound r s (r.join s).ty :=
  ⟨r.ty, s.ty, r.contains_ty, s.contains_ty, (ty_join r s).symm⟩

theorem accepts_of_contains (h : r.contains t = true) : r.ty.accepts t = true :=
  accepts_of_covers (contains_iff_covers.mp h)

/-! A join contains the bounds -/

theorem contains_joinExact (hy : b.accepts y = true) :
    (joinExact a b).contains (a.join y) = true := by
  rw [joinExact]
  by_cases hab : a.accepts b = true
  · rw [if_pos hab, contains_exact, Ty.join_of_accepts (Ty.accepts_trans hab hy)]
  · rw [if_neg hab]
    by_cases hba : b.accepts a = true
    · rw [if_pos hba, contains_covariant]
      exact Ty.accepts_join_iff.mpr ⟨hba, hy⟩
    · rw [if_neg hba, contains_exact]
      exact (Ty.join_eq_of_incomparable hab hba (Ty.accepts_refl a) hy).symm

theorem contains_join_covariant (hx : a.accepts x = true) (hy : b.accepts y = true) :
    ((covariant a).join (covariant b)).contains (x.join y) = true := by
  rw [join, contains_canonical]
  by_cases hab : a.accepts b = true
  · rw [if_pos hab, contains_covariant]
    exact Ty.accepts_join_iff.mpr ⟨hx, Ty.accepts_trans hab hy⟩
  · rw [if_neg hab]
    by_cases hba : b.accepts a = true
    · rw [if_pos hba, contains_covariant]
      exact Ty.accepts_join_iff.mpr ⟨Ty.accepts_trans hba hx, hy⟩
    · rw [if_neg hba, contains_exact]
      exact (Ty.join_eq_of_incomparable hab hba hx hy).symm

/-- **A join contains the bounds.** -/
theorem contains_join (hx : r.contains x = true) (hy : s.contains y = true) :
    (r.join s).contains (x.join y) = true := by
  cases r with
  | exact a =>
      obtain rfl := contains_exact.mp hx
      cases s with
      | exact b =>
          obtain rfl := contains_exact.mp hy
          exact contains_exact.mpr rfl
      | covariant b =>
          rw [join, contains_canonical]
          exact contains_joinExact hy
  | covariant a =>
      cases s with
      | exact b =>
          obtain rfl := contains_exact.mp hy
          rw [join, contains_canonical, Ty.join_comm]
          exact contains_joinExact hx
      | covariant b => exact contains_join_covariant hx hy

theorem contains_of_bound (h : Bound r s t) : (r.join s).contains t = true := by
  obtain ⟨x, y, hx, hy, rfl⟩ := h
  exact contains_join hx hy

/-- **A join of one type contains the bounds only.** -/
theorem contains_join_iff (h : (r.join s).isCovariant = false) :
    (r.join s).contains t = true ↔ Bound r s t := by
  constructor
  · intro ht
    cases hjoin : r.join s with
    | exact v =>
        rw [hjoin, contains_exact] at ht
        have hbound : Bound r s (r.join s).ty := bound_ty r s
        rw [hjoin, ty, ht] at hbound
        exact hbound
    | covariant v =>
        rw [hjoin] at h
        cases h
  · exact contains_of_bound

/-! Where a join contains more -/

theorem isCovariant_of_canonical (h : r.canonical.isCovariant = true) : r.isCovariant = true := by
  cases r with
  | exact t => exact h
  | covariant t => rfl

/-- The subtypes come into a join with the highest type of one of the ranges. -/
theorem ty_join_of_isCovariant (h : (r.join s).isCovariant = true) :
    (r.join s).ty = r.ty ∨ (r.join s).ty = s.ty := by
  have hexact : ∀ a b : Ty, (joinExact a b).isCovariant = true → (joinExact a b).ty = b := by
    intro a b h
    rw [joinExact] at h ⊢
    split at h
    · cases h
    · split at h
      · rename_i hab hba
        rw [if_neg hab, if_pos hba, ty]
      · cases h
  cases r with
  | exact a =>
      cases s with
      | exact b => cases h
      | covariant b =>
          rw [join, ty_canonical]
          exact .inr (hexact a b (isCovariant_of_canonical h))
  | covariant a =>
      cases s with
      | exact b =>
          rw [join, ty_canonical]
          exact .inl (hexact b a (isCovariant_of_canonical h))
      | covariant b =>
          rw [join] at h
          rw [join, ty_canonical]
          have hcov := isCovariant_of_canonical h
          split at hcov
          · rename_i hab
            rw [if_pos hab]
            exact .inl rfl
          · split at hcov
            · rename_i hab hba
              rw [if_neg hab, if_pos hba]
              exact .inr rfl
            · cases hcov

/-- **Types that are no bounds.**  If a range has only types properly below some type, not every type
below that is a bound. -/
theorem exists_not_bound (hs : s.Under u) (hne : s ≠ covariant u) :
    ∃ t, u.accepts t = true ∧ ¬ Bound r s t := by
  have hty : u ≠ s.ty := by
    intro heq
    cases s with
    | exact b => exact hs.2 (congrArg exact heq.symm)
    | covariant b => exact hne (congrArg covariant heq.symm)
  obtain ⟨c, hc, hcs⟩ := Ty.exists_child_accepts.mpr ⟨hs.1, hty⟩
  obtain ⟨d, hd, hdc⟩ := Ty.exists_other_child hc
  refine ⟨d, Ty.accepts_of_mem_children hd, ?_⟩
  rintro ⟨x, y, -, hy, rfl⟩
  have hcy : c.accepts y = true := Ty.accepts_trans hcs (accepts_of_contains hy)
  rcases Ty.accepts_total_of_accepts (Ty.join_accepts_right x y) hcy with h | h
  · exact hdc (Ty.eq_of_mem_children hd hc h)
  · exact hdc (Ty.eq_of_mem_children hc hd h).symm

/-- Of different ranges in their spelling, a join with subtypes contains more than the bounds. -/
theorem eq_of_contains_only_bounds (hr : r.canonical = r) (hs : s.canonical = s)
    (hcov : (r.join s).isCovariant = true)
    (honly : ∀ t, (r.join s).contains t = true → Bound r s t) : r = s := by
  cases hjoin : r.join s with
  | exact u =>
      rw [hjoin] at hcov
      cases hcov
  | covariant u =>
      obtain ⟨hor, hru, hsu⟩ := (join_eq_covariant_iff hr hs).mp hjoin
      have hbelow : ∀ t, u.accepts t = true → Bound r s t := fun t ht => honly t (hjoin ▸ ht)
      have hleft : r = covariant u := by
        apply Classical.byContradiction
        intro hne
        obtain ⟨t, hut, hnot⟩ := exists_not_bound (r := s) hru hne
        exact hnot (bound_comm.mp (hbelow t hut))
      have hright : s = covariant u := by
        apply Classical.byContradiction
        intro hne
        obtain ⟨t, hut, hnot⟩ := exists_not_bound (r := r) hsu hne
        exact hnot (hbelow t hut)
      rw [hleft, hright]

/-- Every member of a range is a bound of the range with itself. -/
theorem bound_self (h : r.contains t = true) : Bound r r t :=
  ⟨t, t, h, h, Ty.join_of_accepts (Ty.accepts_refl t)⟩

/-- **The join of two ranges.**  It contains the join of every member of one with every member of the
other, and its type is the join of their types.  Unless it has the subtypes of a type that is the
highest one of a range already, it contains nothing else.  Where it has them, it contains nothing else
only if the ranges are equal. -/
theorem join_bounds (r s : TypeRange) :
    (∀ x y, r.contains x = true → s.contains y = true →
      (r.join s).contains (x.join y) = true) ∧
    (r.join s).ty = r.ty.join s.ty ∧
    (¬ ((r.join s).isCovariant = true ∧ ((r.join s).ty = r.ty ∨ (r.join s).ty = s.ty)) →
      ∀ t, (r.join s).contains t = true ↔
        ∃ x y, r.contains x = true ∧ s.contains y = true ∧ x.join y = t) ∧
    (r.canonical = r → s.canonical = s → (r.join s).isCovariant = true →
      ((∀ t, (r.join s).contains t = true ↔
        ∃ x y, r.contains x = true ∧ s.contains y = true ∧ x.join y = t) ↔ r = s)) := by
  refine ⟨fun x y => contains_join, ty_join r s, fun h t => ?_, fun hr hs hcov => ?_⟩
  · have hexact : (r.join s).isCovariant = false := by
      cases hcov : (r.join s).isCovariant with
      | false => rfl
      | true => exact absurd ⟨hcov, ty_join_of_isCovariant hcov⟩ h
    exact contains_join_iff hexact
  · constructor
    · intro honly
      exact eq_of_contains_only_bounds hr hs hcov fun t => (honly t).mp
    · rintro rfl t
      refine ⟨fun ht => bound_self ?_, contains_of_bound⟩
      obtain ⟨u, hu⟩ : ∃ u, r.join r = covariant u := by
        cases hjoin : r.join r with
        | exact u => rw [hjoin] at hcov; cases hcov
        | covariant u => exact ⟨u, rfl⟩
      obtain ⟨hor, -, -⟩ := (join_eq_covariant_iff hr hr).mp hu
      rw [hu] at ht
      rw [hor.elim id id]
      exact ht

end TypeRange
end QueryTyping
