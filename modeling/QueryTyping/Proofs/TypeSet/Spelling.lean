import QueryTyping.Proofs.TypeSet.Lattice

/-!
# Sets that spell out a type

A type and its subtypes can be given by one range.  Since a type has only finitely many children, a
set can also have the type by itself and then, child by child, everything below it.  Such a set
spells the type out, and it differs from the set with the one range although the members are the
same.  Nothing else stands between members and equality: sets with the same members are equal as
soon as they spell out the same types.

Whether a set has everything below a type can be seen at its ranges.  Going down from the type, a
covariant range has all the rest, so only the children of what the set has exactly are looked at.

Main statements: `includes_iff` is this test, `le_of_members` says that a set with fewer members is
the lower one unless the other spells something out, and `eq_iff_members_and_spelling` says when sets
are equal.
-/

namespace QueryTyping.TypeSet

variable {a b : TypeSet} {t : Ty}

/-- The set has the type and all its subtypes. -/
def includes (a : TypeSet) (t : Ty) : Bool :=
  a.contains t &&
    a.ranges.all fun r => r.isCovariant || !t.accepts r.ty || r.ty.children.all a.contains

/-- The set has the type by itself and all its subtypes by other ranges. -/
def spellsOut (a : TypeSet) (t : Ty) : Bool :=
  a.ranges.contains (.exact t) && t.hasSubtypes && a.includes t

theorem contains_iff : a.contains t = true ↔ t ∈ a := Iff.rfl

theorem includes_eq_true : a.includes t = true ↔
    t ∈ a ∧ ∀ s, .exact s ∈ a.ranges → t.accepts s = true → ∀ c ∈ s.children, c ∈ a := by
  simp only [includes, Bool.and_eq_true, List.all_eq_true, Bool.or_eq_true, Bool.not_eq_true',
    contains_iff]
  refine and_congr_right fun _ => ⟨fun h s hs hts => ?_, fun h r hr => ?_⟩
  · rcases h _ hs with (hcovariant | hother) | hchildren
    · cases hcovariant
    · rw [TypeRange.ty, hts] at hother
      cases hother
    · exact hchildren
  · cases r with
    | covariant s => exact .inl (.inl rfl)
    | exact s =>
        by_cases hts : t.accepts s = true
        · exact .inr (h s hr hts)
        · exact .inl (.inr (Bool.eq_false_iff.mpr hts))

/-- **The test of inclusion.**  On the way down from the type, a member of a covariant range has all
its subtypes in that range, and the children of any other member are members by the test. -/
theorem includes_iff : a.includes t = true ↔ ∀ u, t.accepts u = true → u ∈ a := by
  rw [includes_eq_true]
  constructor
  · rintro ⟨ht, hexact⟩ u
    induction u using Ty.parent_induction with
    | step u ih =>
        intro htu
        rcases Ty.accepts_iff_parent.mp htu with rfl | ⟨wider, hparent, htw⟩
        · exact ht
        · -- the parent is a member, and it matters by which kind of range
          obtain ⟨r, hr, hwider⟩ := mem_iff.mp (ih wider hparent htw)
          cases r with
          | exact s =>
              obtain rfl : s = wider := TypeRange.contains_exact.mp hwider
              exact hexact s hr htw u (Ty.mem_children.mpr hparent)
          | covariant s =>
              have hsu : s.accepts u = true :=
                Ty.accepts_iff_parent.mpr (.inr ⟨wider, hparent, hwider⟩)
              exact mem_iff.mpr ⟨_, hr, hsu⟩
  · intro h
    refine ⟨h t (Ty.accepts_refl t), fun s _ hts c hc => h c ?_⟩
    exact Ty.accepts_iff_parent.mpr (.inr ⟨s, Ty.mem_children.mp hc, hts⟩)

theorem spellsOut_iff : a.spellsOut t = true ↔
    .exact t ∈ a.ranges ∧ t.hasSubtypes = true ∧ ∀ u, t.accepts u = true → u ∈ a := by
  rw [spellsOut, Bool.and_eq_true, Bool.and_eq_true, includes_iff, List.contains_iff_mem, and_assoc]

/-- What a set has by a covariant range it does not have by itself. -/
theorem not_exact_of_covariant (h : .covariant t ∈ a.ranges) : .exact t ∉ a.ranges := by
  intro hexact
  have hcov : (TypeRange.covariant t).covers (.exact t) = true := Ty.accepts_refl t
  cases a.unrelated _ hexact _ h hcov

/-- **Fewer members, lower set.**  A set whose members are all in another one is below it, unless
the other one spells out a type that the set does not spell out. -/
theorem le_of_members (hmem : ∀ t ∈ a, t ∈ b)
    (hspelled : ∀ t, b.spellsOut t = true → a.spellsOut t = true) : a ≤ b := by
  intro r hr
  obtain ⟨s, hs, hcontains⟩ := mem_iff.mp (hmem r.ty (mem_iff.mpr ⟨r, hr, r.contains_ty⟩))
  cases r with
  | exact t => exact ⟨s, hs, TypeRange.contains_iff_covers.mp hcontains⟩
  | covariant t =>
      cases s with
      | covariant u => exact ⟨_, hs, hcontains⟩
      | exact u =>
          -- then `b` has `t` by itself and all its subtypes because `a` has them
          obtain rfl : u = t := TypeRange.contains_exact.mp hcontains
          have hsub : u.hasSubtypes = true :=
            TypeRange.hasSubtypes_of_canonical_eq (a.canonical _ hr)
          have hall : ∀ v, u.accepts v = true → v ∈ b :=
            fun v hv => hmem v (mem_iff.mpr ⟨_, hr, hv⟩)
          have hboth := spellsOut_iff.mp (hspelled u (spellsOut_iff.mpr ⟨hs, hsub, hall⟩))
          exact absurd hboth.1 (not_exact_of_covariant hr)

/-- Two sets with the same members that spell out the same types are equal. -/
theorem eq_of_members (hmem : ∀ t, t ∈ a ↔ t ∈ b)
    (hspelled : ∀ t, a.spellsOut t = b.spellsOut t) : a = b := by
  apply le_antisymm
  · exact le_of_members (fun t ht => (hmem t).mp ht) fun t ht => (hspelled t).trans ht
  · exact le_of_members (fun t ht => (hmem t).mpr ht) fun t ht => (hspelled t).symm.trans ht

/-- A set is marked as that of all types if it has all of them and does not spell out the root. -/
theorem isAll_iff : a.isAll = true ↔ (∀ t, t ∈ a) ∧ a.spellsOut .any = false := by
  rw [isAll, List.contains_iff_mem]
  constructor
  · intro hroot
    refine ⟨fun t => mem_iff.mpr ⟨_, hroot, Ty.any_accepts t⟩, ?_⟩
    rw [← Bool.not_eq_true, spellsOut_iff]
    exact fun h => not_exact_of_covariant hroot h.1
  · rintro ⟨hmem, hspelled⟩
    obtain ⟨r, hr, hroot⟩ := mem_iff.mp (hmem .any)
    cases r with
    | covariant t =>
        obtain rfl : t = .any := Ty.accepts_antisymm hroot (Ty.any_accepts t)
        exact hr
    | exact t =>
        obtain rfl : t = .any := TypeRange.contains_exact.mp hroot
        have hout : a.spellsOut .any = true := spellsOut_iff.mpr ⟨hr, rfl, fun u _ => hmem u⟩
        rw [hspelled] at hout
        cases hout

/-- **When sets are equal.**  Sets are equal if they have the same members and spell out the same
types, and a set is marked as that of all types if it has every type and does not spell out the
root. -/
theorem eq_iff_members_and_spelling (a b : TypeSet) :
    (a = b ↔ (∀ t, t ∈ a ↔ t ∈ b) ∧ ∀ t, a.spellsOut t = b.spellsOut t) ∧
      (a.isAll = true ↔ (∀ t, t ∈ a) ∧ a.spellsOut .any = false) := by
  refine ⟨⟨?_, fun h => eq_of_members h.1 h.2⟩, isAll_iff⟩
  rintro rfl
  exact ⟨fun _ => Iff.rfl, fun _ => rfl⟩

/-- **Two spellings.**  Numbers can be given by one range or one by one, and all types by one range
or by the root and a range for each of its children: the members are the same, the sets are not. -/
theorem number_has_two_spellings :
    let numbers := (exact .number).union ((exact .integer).union (exact .float))
    let everything := unions [exact .any, exact .boolean, exact .string, covariant .number,
      covariant .map, exact .path, covariant (.list .any)]
    ((∀ t, t ∈ numbers ↔ t ∈ covariant .number) ∧ numbers ≠ covariant .number) ∧
      (∀ t, t ∈ everything) ∧ everything.isAll = false := by
  intro numbers everything
  have hnumbers : numbers.includes .number = true := by decide
  have heverything : everything.includes .any = true := by decide
  have hbelow : numbers ≤ covariant .number := by decide
  refine ⟨⟨fun t => ⟨fun ht => ?_, fun ht => ?_⟩, by decide⟩, fun t => ?_, by decide⟩
  · exact mem_of_le hbelow ht
  · exact includes_iff.mp hnumbers t (mem_covariant.mp ht)
  · exact includes_iff.mp heverything t (Ty.any_accepts t)

end QueryTyping.TypeSet
