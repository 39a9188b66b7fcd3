import QueryTyping.Proofs.Ty.Order

/-!
# Joins of types

The supertypes of a type form a chain, so among those with a given property there is a nearest one.
The join of two types is the nearest supertype of the one that also accepts the other: it is found by
going up from the first type to the first supertype that will do.

Main statements: `accepts_join_iff` says that the join is the least upper bound in the order of
types, `depth_lt_depth` that a type stands deeper than its supertypes, and `exists_child_accepts`
that the way down to a proper subtype goes through a child.
-/

namespace QueryTyping.Ty

variable {s t u : Ty} {p q : Ty → Prop}

/-- A type that accepts the other is the join. -/
theorem join_of_accepts (h : s.accepts t = true) : s.join t = s := by
  rw [join, ancestors_eq, List.find?_cons_of_pos (p := fun v : Ty => v.accepts t) h]
  rfl

/-- Otherwise the parent has the same join. -/
theorem join_of_parent {wider : Ty} (h : ¬ s.accepts t = true) (hparent : s.parent? = some wider) :
    s.join t = wider.join t := by
  rw [join, ancestors_eq, List.find?_cons_of_neg (p := fun v : Ty => v.accepts t) h, hparent]
  rfl

/-- **The least upper bound.**  A type accepts the join of two types if it accepts both. -/
theorem accepts_join_iff :
    u.accepts (s.join t) = true ↔ u.accepts s = true ∧ u.accepts t = true := by
  induction s using parent_induction with
  | step s ih =>
      by_cases hst : s.accepts t = true
      · rw [join_of_accepts hst]
        exact ⟨fun hus => ⟨hus, accepts_trans hus hst⟩, fun h => h.1⟩
      · cases hparent : s.parent? with
        | none =>
            obtain rfl := parent_eq_none_iff.mp hparent
            exact absurd (any_accepts t) hst
        | some wider =>
            rw [join_of_parent hst hparent, ih wider hparent, accepts_iff_parent (t := s), hparent]
            constructor
            · rintro ⟨huw, hut⟩
              exact ⟨.inr ⟨wider, rfl, huw⟩, hut⟩
            · rintro ⟨rfl | ⟨w, hw, huw⟩, hut⟩
              · exact absurd hut hst
              · obtain rfl := Option.some.inj hw
                exact ⟨huw, hut⟩

theorem join_accepts_left (s t : Ty) : (s.join t).accepts s = true :=
  (accepts_join_iff.mp (accepts_refl _)).1

theorem join_accepts_right (s t : Ty) : (s.join t).accepts t = true :=
  (accepts_join_iff.mp (accepts_refl _)).2

theorem join_comm (s t : Ty) : s.join t = t.join s := by
  apply accepts_antisymm
  · exact accepts_join_iff.mpr ⟨join_accepts_right s t, join_accepts_left s t⟩
  · exact accepts_join_iff.mpr ⟨join_accepts_right t s, join_accepts_left t s⟩

/-! Depth and children -/

/-- A type stands deeper than every other type that accepts it. -/
theorem depth_lt_depth (h : s.accepts t = true) (hne : s ≠ t) : s.depth < t.depth := by
  have hsuffix : s.ancestors <:+ t.ancestors := ancestors_suffix (accepts_iff.mp h)
  have hle : s.ancestors.length ≤ t.ancestors.length := hsuffix.length_le
  have hlength : s.ancestors.length ≠ t.ancestors.length := by
    intro heq
    exact hne (ancestors_injective (hsuffix.eq_of_length heq))
  have hpos : 0 < s.ancestors.length := List.length_pos_of_mem (self_mem_ancestors s)
  rw [depth, depth]
  omega

/-- Of two types that accept a third, the one that does not stand deeper accepts the other. -/
theorem accepts_of_depth_le (hs : s.accepts u = true) (ht : t.accepts u = true)
    (h : s.depth ≤ t.depth) : s.accepts t = true := by
  rcases accepts_total_of_accepts hs ht with hst | hts
  · exact hst
  · by_cases heq : t = s
    · exact heq ▸ accepts_refl t
    · exact absurd (depth_lt_depth hts heq) (Nat.not_lt.mpr h)

theorem accepts_of_mem_children {c : Ty} (h : c ∈ u.children) : u.accepts c = true :=
  accepts_iff_parent.mpr (.inr ⟨u, mem_children.mp h, accepts_refl u⟩)

theorem ne_of_mem_children {c : Ty} (h : c ∈ u.children) : c ≠ u := by
  rintro rfl
  have hlength := congrArg List.length (ancestors_eq c)
  simp only [mem_children.mp h, List.length_cons] at hlength
  omega

/-- **Down to a proper subtype.**  A type accepts another one below it through one of its
children. -/
theorem exists_child_accepts :
    (∃ c ∈ u.children, c.accepts t = true) ↔ u.accepts t = true ∧ u ≠ t := by
  constructor
  · rintro ⟨c, hc, hct⟩
    have huc : u.accepts c = true := accepts_of_mem_children hc
    refine ⟨accepts_trans huc hct, ?_⟩
    rintro rfl
    exact ne_of_mem_children hc (accepts_antisymm hct huc)
  · rintro ⟨hut, hne⟩
    induction t using parent_induction with
    | step t ih =>
        rcases accepts_iff_parent.mp hut with heq | ⟨wider, hparent, huw⟩
        · exact absurd heq hne
        · by_cases hwider : u = wider
          · exact ⟨t, mem_children.mpr (hwider ▸ hparent), accepts_refl t⟩
          · obtain ⟨c, hc, hcw⟩ := ih wider hparent huw hwider
            exact ⟨c, hc, accepts_iff_parent.mpr (.inr ⟨wider, hparent, hcw⟩)⟩

/-! The nearest supertype with a property -/

/-- `u` is the nearest supertype of `t` with the property `p`. -/
structure Nearest (p : Ty → Prop) (t u : Ty) : Prop where
  accepts : u.accepts t = true
  holds : p u
  least : ∀ v, v.accepts t = true → p v → v.accepts u = true

namespace Nearest

theorem unique {v : Ty} (hu : Nearest p t u) (hv : Nearest p t v) : u = v :=
  accepts_antisymm (hv.least u hu.accepts hu.holds) (hu.least v hv.accepts hv.holds)

theorem congr (h : ∀ v, p v ↔ q v) : Nearest p t u ↔ Nearest q t u := by
  constructor
  · intro hu
    exact ⟨hu.accepts, (h u).mp hu.holds, fun v hv hq => hu.least v hv ((h v).mpr hq)⟩
  · intro hu
    exact ⟨hu.accepts, (h u).mpr hu.holds, fun v hv hp => hu.least v hv ((h v).mp hp)⟩

/-- A type with the property is nearest to itself. -/
theorem self_iff (h : p t) : Nearest p t u ↔ u = t := by
  have hself : Nearest p t t := ⟨accepts_refl t, h, fun _ hv _ => hv⟩
  constructor
  · intro hu
    exact hu.unique hself
  · rintro rfl
    exact hself

/-- **Going up in two steps.**  From the nearest supertype with one property one gets to the nearest
one that has another property as well, if the supertypes of what has the first have it too. -/
theorem step {v : Ty} (hu : Nearest p t u)
    (hup : ∀ {v w}, w.accepts v = true → p v → p w) :
    Nearest q u v ↔ Nearest (fun w => p w ∧ q w) t v := by
  constructor
  · intro hv
    refine ⟨accepts_trans hv.accepts hu.accepts, ⟨hup hv.accepts hu.holds, hv.holds⟩, ?_⟩
    rintro w hw ⟨hp, hq⟩
    exact hv.least w (hu.least w hw hp) hq
  · intro hv
    have hvu : v.accepts u = true := hu.least v hv.accepts hv.holds.1
    refine ⟨hvu, hv.holds.2, fun w hw hq => ?_⟩
    exact hv.least w (accepts_trans hw hu.accepts) ⟨hup hw hu.holds, hq⟩

end Nearest

/-- What the root has, every type has a nearest supertype with. -/
theorem exists_nearest (hroot : p any) (t : Ty) : ∃ u, Nearest p t u := by
  induction t using parent_induction with
  | step t ih =>
      by_cases ht : p t
      · exact ⟨t, (Nearest.self_iff ht).mpr rfl⟩
      · cases hparent : t.parent? with
        | none => exact absurd (parent_eq_none_iff.mp hparent ▸ hroot) ht
        | some wider =>
            obtain ⟨u, hu⟩ := ih wider hparent
            refine ⟨u, accepts_iff_parent.mpr (.inr ⟨wider, hparent, hu.accepts⟩), hu.holds, ?_⟩
            intro v hv hp
            rcases accepts_iff_parent.mp hv with rfl | ⟨w, hw, hvw⟩
            · exact absurd hp ht
            · obtain rfl := Option.some.inj (hparent.symm.trans hw)
              exact hu.least v hvw hp

end QueryTyping.Ty
