import Mathlib.Order.BoundedOrder.Basic
import Mathlib.Order.Lattice
import QueryTyping.Proofs.Ty.Join
import QueryTyping.Proofs.TypeSet.Membership

/-!
# The lattice of types

Going up from a type, one parent at a time, one passes its ancestors and nothing else.  The way ends at
`any` after as many steps as the type is deep, so there are finitely many ancestors and each accepts the
ones before it.  With the join as least upper bound types are a semilattice, and its laws are those of
any semilattice.

What accepts a list type is `any`, which accepts everything, or a list type whose elements accept the
elements.  So lists stand in the same order as their elements, and a join of lists, which is never
further up than the list of the joined elements, is that list.

Main statements: `above?_eq` ties the way up to the ancestors, `pairwise_ancestors` says that they are
a chain, `list_join_list` gives the joins of lists, and `order_join_laws` gathers the laws.
-/

namespace QueryTyping.Ty

/-! The way up -/

/-- The type so many steps above, if the way up is that long. -/
def above? (t : Ty) : Nat → Option Ty
  | 0 => some t
  | n + 1 => (t.above? n).bind parent?

/-- The first step of a way up leads to the parent. -/
theorem above?_succ (t : Ty) (n : Nat) : t.above? (n + 1) = t.parent?.bind (·.above? n) := by
  induction n with
  | zero => cases h : t.parent? <;> simp [above?, h]
  | succ n ih => rw [above?, ih, Option.bind_assoc]; rfl

/-- **The way up.**  It passes the ancestors, one at each step, and ends with them. -/
theorem above?_eq (t : Ty) (n : Nat) : t.above? n = t.ancestors[n]? := by
  induction n generalizing t with
  | zero => rw [ancestors_eq, List.getElem?_cons_zero, above?]
  | succ n ih =>
      rw [above?_succ, ancestors_eq, List.getElem?_cons_succ]
      cases t.parent? with
      | none => rfl
      | some wider => exact ih wider

/-- The way up is as long as the type is deep. -/
theorem above?_eq_none_iff (t : Ty) (n : Nat) : t.above? n = none ↔ t.depth < n := by
  have hpos : 0 < t.ancestors.length := List.length_pos_of_mem (self_mem_ancestors t)
  rw [above?_eq, List.getElem?_eq_none_iff, depth]
  omega

/-- **Ancestors are a chain.**  Each ancestor properly accepts the ones before it. -/
theorem pairwise_ancestors (t : Ty) :
    t.ancestors.Pairwise fun s u => u.accepts s = true ∧ s ≠ u := by
  induction t using parent_induction with
  | step t ih =>
      rw [ancestors_eq]
      cases hparent : t.parent? with
      | none => exact List.pairwise_singleton _ t
      | some wider =>
          refine List.pairwise_cons.mpr ⟨fun u hu => ?_, ih wider hparent⟩
          have hchild : t ∈ wider.children := mem_children.mpr hparent
          have huw : u.accepts wider = true := accepts_iff.mpr hu
          refine ⟨accepts_trans huw (accepts_of_mem_children hchild), ?_⟩
          rintro rfl
          exact ne_of_mem_children hchild (accepts_antisymm huw (accepts_of_mem_children hchild))

/-- The last ancestor is the root. -/
theorem getLast?_ancestors (t : Ty) : t.ancestors.getLast? = some any := by
  cases t with
  | list element => rw [ancestors, List.getLast?_concat]
  | _ => rfl

/-! Lists -/

/-- **Lists stand in the order of their elements.** -/
theorem list_accepts_list (s t : Ty) : (list s).accepts (list t) = s.accepts t := by
  rw [Bool.eq_iff_iff, list_accepts_iff]
  constructor
  · rintro ⟨u, hu, hsu⟩
    cases hu
    exact hsu
  · intro h
    exact ⟨t, rfl, h⟩

/-- **A join of lists is the list of the joined elements.** -/
theorem list_join_list (s t : Ty) : (list s).join (list t) = list (s.join t) := by
  have hle : (list (s.join t)).accepts ((list s).join (list t)) = true := by
    rw [accepts_join_iff, list_accepts_list, list_accepts_list]
    exact ⟨join_accepts_left s t, join_accepts_right s t⟩
  have hge : ((list s).join (list t)).accepts (list (s.join t)) = true := by
    rcases accepts_list_iff.mp (join_accepts_left (list s) (list t)) with h | ⟨w, h, hs⟩
    · rw [h]
      exact any_accepts _
    · have ht : (list w).accepts (list t) = true := h ▸ join_accepts_right (list s) (list t)
      rw [h, list_accepts_list, accepts_join_iff]
      exact ⟨hs, list_accepts_list w t ▸ ht⟩
  exact accepts_antisymm hge hle

/-! The semilattice -/

/-- A type stands below the types that accept it. -/
instance : PartialOrder Ty where
  le s t := t.accepts s = true
  le_refl := accepts_refl
  le_trans _ _ _ hst htu := accepts_trans htu hst
  le_antisymm _ _ hst hts := accepts_antisymm hts hst

instance : SemilatticeSup Ty where
  sup := join
  le_sup_left := join_accepts_left
  le_sup_right := join_accepts_right
  sup_le _ _ _ hsu htu := accepts_join_iff.mpr ⟨hsu, htu⟩

instance : OrderTop Ty where
  top := any
  le_top := any_accepts

/-- **Types form a tree order with joins.**  Accepting is an order with `any` at the top.  The ancestors
of a type are what one passes on the way up, which ends after as many steps as the type is deep; they
are the types that accept it, each properly accepts the ones before it, and the last one is `any`.  A
type has subtypes if it accepts another one.  The join of two types accepts both, and what accepts both
accepts the join, so joins are commutative, associative and idempotent.  Lists are ordered as their
elements are, different lists have different elements, and a join of lists is the list of the joined
elements. -/
theorem order_join_laws (a b c : Ty) :
    (a.accepts a = true ∧
      (a.accepts b = true → b.accepts c = true → a.accepts c = true) ∧
      (a.accepts b = true → b.accepts a = true → a = b) ∧
      any.accepts a = true) ∧
    ((∀ n, a.above? n = a.ancestors[n]?) ∧
      (∀ n, a.above? n = none ↔ a.depth < n) ∧
      (∀ t : Ty, t ∈ a.ancestors ↔ t.accepts a = true) ∧
      a.ancestors.Pairwise (fun s t => t.accepts s = true ∧ s ≠ t) ∧
      a.ancestors.getLast? = some any) ∧
    (a.hasSubtypes = true ↔ ∃ t, a.accepts t = true ∧ t ≠ a) ∧
    ((a.join b).accepts a = true ∧ (a.join b).accepts b = true ∧
      ∀ t : Ty, t.accepts a = true → t.accepts b = true → t.accepts (a.join b) = true) ∧
    (a.join b = b.join a ∧ (a.join b).join c = a.join (b.join c) ∧ a.join a = a) ∧
    ((list a).accepts (list b) = a.accepts b ∧ (list a = list b ↔ a = b) ∧
      (list a).join (list b) = list (a.join b)) :=
  ⟨⟨accepts_refl a, accepts_trans, accepts_antisymm, any_accepts a⟩,
    ⟨above?_eq a, above?_eq_none_iff a, fun _ => accepts_iff.symm, pairwise_ancestors a,
      getLast?_ancestors a⟩,
    hasSubtypes_iff,
    ⟨join_accepts_left a b, join_accepts_right a b, fun _ ha hb => accepts_join_iff.mpr ⟨ha, hb⟩⟩,
    ⟨sup_comm a b, sup_assoc a b c, sup_idem a⟩,
    ⟨list_accepts_list a b, ⟨list.inj, congrArg list⟩, list_join_list a b⟩⟩

end QueryTyping.Ty
