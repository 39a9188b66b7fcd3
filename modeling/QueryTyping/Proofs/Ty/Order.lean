import QueryTyping.Ty.Basic

/-!
# The order of types

The ancestors of a type are a chain, and those of an ancestor are the end of that chain.  From this
alone it follows that one type accepting another is an order in which the types above any type can
be compared.  Below a type the order branches into finitely many children, one step at a time.

Main statements: `ancestors_suffix` is that fact about chains; `accepts_trans` and
`accepts_antisymm` are the laws of the order, and `accepts_total_of_accepts` says that two types
that accept a third can be compared.  `mem_children` ties children to parents, and
`parent_induction` goes down the order from parent to child.  `list_accepts_iff` and
`accepts_list_iff` say what a list is related to.
-/

namespace QueryTyping.Ty

theorem accepts_iff {s t : Ty} : s.accepts t = true ↔ s ∈ t.ancestors := by
  simp [accepts]

/-- **Ancestors are chains.**  The ancestors of an ancestor are the last of the ancestors. -/
theorem ancestors_suffix {s t : Ty} (h : s ∈ t.ancestors) : s.ancestors <:+ t.ancestors := by
  induction t generalizing s with
  | list element ih =>
      rw [ancestors, List.mem_append, List.mem_map, List.mem_singleton] at h
      rw [ancestors]
      rcases h with ⟨u, hu, rfl⟩ | rfl
      · obtain ⟨before, hbefore⟩ := ih hu
        refine ⟨before.map list, ?_⟩
        rw [ancestors, ← List.append_assoc, ← List.map_append, hbefore]
      · exact List.suffix_append _ _
  | _ =>
      simp only [ancestors, List.mem_cons, List.not_mem_nil, or_false] at h
      rcases h with rfl | rfl | rfl <;> decide

theorem accepts_trans {s t u : Ty} (hst : s.accepts t = true) (htu : t.accepts u = true) :
    s.accepts u = true := by
  rw [accepts_iff] at hst htu ⊢
  exact (ancestors_suffix htu).subset hst

/-- Types with the same ancestors are equal. -/
theorem ancestors_injective {s t : Ty} (h : s.ancestors = t.ancestors) : s = t := by
  rw [ancestors_eq s, ancestors_eq t] at h
  exact (List.cons.inj h).1

theorem accepts_antisymm {s t : Ty} (hst : s.accepts t = true) (hts : t.accepts s = true) :
    s = t := by
  rw [accepts_iff] at hst hts
  have hle : s.ancestors <:+ t.ancestors := ancestors_suffix hst
  have hge : t.ancestors <:+ s.ancestors := ancestors_suffix hts
  exact ancestors_injective (hle.eq_of_length_le hge.length_le)

/-- Two types that accept a third stand in its chain, so one of them accepts the other. -/
theorem accepts_total_of_accepts {s t u : Ty} (hs : s.accepts u = true) (ht : t.accepts u = true) :
    s.accepts t = true ∨ t.accepts s = true := by
  rw [accepts_iff] at hs ht
  rw [accepts_iff, accepts_iff]
  rcases List.suffix_or_suffix_of_suffix (ancestors_suffix hs) (ancestors_suffix ht) with h | h
  · exact Or.inl (h.subset (self_mem_ancestors s))
  · exact Or.inr (h.subset (self_mem_ancestors t))

/-- The direct subtypes. -/
def children : Ty → List Ty
  | any => [boolean, string, number, map, path, list any]
  | number => [integer, float]
  | map => [node, relationship]
  | list element => element.children.map list
  | boolean | string | integer | float | node | relationship | path => []

theorem parent_eq_none_iff {t : Ty} : t.parent? = none ↔ t = any := by
  cases t with
  | list t => cases h : t.parent? <;> simp [parent?, h]
  | _ => simp [parent?]

/-- **Children and parents.**  The children of a type are the types that it is the parent of. -/
theorem mem_children {s t : Ty} : t ∈ s.children ↔ t.parent? = some s := by
  induction s generalizing t with
  | list s ih =>
      cases t with
      | list t => cases h : t.parent? <;> simp [children, parent?, ih, h]
      | _ => simp [children, parent?]
  | _ =>
      cases t with
      | list t =>
          have hroot : t.parent? = none ↔ t = any := parent_eq_none_iff
          cases h : t.parent? <;> simp_all [children, parent?]
      | _ => simp [children, parent?]

/-- What holds of a type if it holds of the parent holds of every type. -/
theorem parent_induction {motive : Ty → Prop}
    (step : ∀ t, (∀ wider, t.parent? = some wider → motive wider) → motive t) (t : Ty) :
    motive t := by
  induction hn : t.ancestors.length using Nat.strongRecOn generalizing t with
  | _ n ih =>
      refine step t fun wider hwider => ih _ ?_ wider rfl
      rw [← hn, ancestors_eq t, hwider]
      exact Nat.lt_succ_self _

/-- A type is accepted where its parent is, and otherwise by itself only. -/
theorem accepts_iff_parent {s t : Ty} :
    s.accepts t = true ↔ s = t ∨ ∃ wider, t.parent? = some wider ∧ s.accepts wider = true := by
  rw [accepts_iff, ancestors_eq, List.mem_cons]
  cases t.parent? <;> simp [accepts_iff]

/-! Lists -/

/-- A list type accepts just the lists whose elements its own type of elements accepts. -/
theorem list_accepts_iff {s u : Ty} :
    (list s).accepts u = true ↔ ∃ t, u = list t ∧ s.accepts t = true := by
  cases u with
  | list t => simp [accepts_iff, ancestors]
  | _ => simp [accepts_iff, ancestors]

/-- Only the root and lists accept a list. -/
theorem accepts_list_iff {s t : Ty} :
    s.accepts (list t) = true ↔ s = any ∨ ∃ u, s = list u ∧ u.accepts t = true := by
  cases s with
  | list u => simp [accepts_iff, ancestors]
  | _ => simp [accepts_iff, ancestors]

/-- Only the root accepts the root. -/
theorem accepts_any_iff {s : Ty} : s.accepts any = true ↔ s = any := by
  rw [accepts_iff, ancestors, List.mem_singleton]

end QueryTyping.Ty
