import Mathlib.Data.List.Nodup
import Mathlib.Data.List.Pairwise
import QueryTyping.Expr.Fold

/-!
# The ids of a tree

The ids of a tree are the id of its root, that of the name the root binds, and the ids of each
child.  If they are distinct, those of any part are, and no two parts share one.

Main statements: `ids_eq_cons` splits off the root, `nodup_of_mem_children` and
`nodup_children` say that the parts of a tree with distinct ids have distinct ids.
-/

namespace QueryTyping.Expr

/-- The ids below the root, that of a bound name included. -/
def lowerIds (e : Expr) : List NodeId :=
  (e.bound?.map Binding.id).toList ++ e.children.flatMap ids

theorem ids_eq_cons (e : Expr) : e.ids = e.id :: e.lowerIds := by
  rw [ids_eq, ownIds, lowerIds, List.cons_append]

theorem id_mem_ids (e : Expr) : e.id ∈ e.ids := by
  rw [ids_eq_cons]; exact List.mem_cons_self

theorem mem_ids_of_mem_lowerIds {e : Expr} {i : NodeId} (h : i ∈ e.lowerIds) : i ∈ e.ids := by
  rw [ids_eq_cons]; exact List.mem_cons_of_mem _ h

theorem bound_mem_lowerIds {e : Expr} {b : Binding} (h : e.bound? = some b) :
    b.id ∈ e.lowerIds := by
  simp [lowerIds, h]

theorem mem_lowerIds_of_mem_children {e c : Expr} {i : NodeId} (hc : c ∈ e.children)
    (hi : i ∈ c.ids) : i ∈ e.lowerIds := by
  have hmem : i ∈ e.children.flatMap ids := List.mem_flatMap.mpr ⟨c, hc, hi⟩
  simp [lowerIds, hmem]

theorem mem_ids_of_mem_children {e c : Expr} {i : NodeId} (hc : c ∈ e.children)
    (hi : i ∈ c.ids) : i ∈ e.ids :=
  mem_ids_of_mem_lowerIds (mem_lowerIds_of_mem_children hc hi)

variable {e : Expr}

theorem nodup_lowerIds (h : e.ids.Nodup) : e.lowerIds.Nodup := by
  rw [ids_eq_cons] at h
  exact (List.nodup_cons.mp h).2

theorem id_not_mem_lowerIds (h : e.ids.Nodup) : e.id ∉ e.lowerIds := by
  rw [ids_eq_cons] at h
  exact (List.nodup_cons.mp h).1

theorem nodup_children (h : e.ids.Nodup) : (e.children.flatMap ids).Nodup :=
  (List.nodup_append.mp (nodup_lowerIds h)).2.1

/-- The id of a bound name is in no child. -/
theorem bound_not_mem_child {b : Binding} (h : e.ids.Nodup) (hb : e.bound? = some b) {c : Expr}
    (hc : c ∈ e.children) : b.id ∉ c.ids := by
  intro hi
  have hdisjoint := (List.nodup_append.mp (nodup_lowerIds h)).2.2
  exact hdisjoint b.id (by simp [hb]) b.id (List.mem_flatMap.mpr ⟨c, hc, hi⟩) rfl

theorem nodup_of_mem_children {c : Expr} (h : e.ids.Nodup) (hc : c ∈ e.children) :
    c.ids.Nodup :=
  (List.nodup_flatMap.mp (nodup_children h)).1 c hc

/-- The id of the root is in no child. -/
theorem id_not_mem_child {c : Expr} (h : e.ids.Nodup) (hc : c ∈ e.children) : e.id ∉ c.ids :=
  fun hi => id_not_mem_lowerIds h (mem_lowerIds_of_mem_children hc hi)

/-- Different children share no id. -/
theorem disjoint_children {c d : Expr} (h : e.ids.Nodup) (hc : c ∈ e.children)
    (hd : d ∈ e.children) (hne : c ≠ d) : ∀ i ∈ c.ids, i ∉ d.ids := by
  have hpairwise := (List.nodup_flatMap.mp (nodup_children h)).2
  have hsymm : Std.Symm (Function.onFun List.Disjoint ids) := ⟨fun _ _ h _ hd hc => h hc hd⟩
  have hdisjoint : List.Disjoint c.ids d.ids := hpairwise.forall hc hd hne
  exact fun i hi hid => hdisjoint hi hid

/-- Trees in a row have distinct ids if each has and no later one shares an id with it. -/
theorem nodup_flatMap_ids_cons {c : Expr} {cs : List Expr} :
    ((c :: cs).flatMap ids).Nodup ↔
      c.ids.Nodup ∧ (cs.flatMap ids).Nodup ∧ ∀ d ∈ cs, ∀ i ∈ c.ids, i ∉ d.ids := by
  rw [List.flatMap_cons, List.nodup_append]
  constructor
  · rintro ⟨hc, hcs, hdisjoint⟩
    refine ⟨hc, hcs, fun d hd i hi hid => ?_⟩
    exact hdisjoint i hi i (List.mem_flatMap.mpr ⟨d, hd, hid⟩) rfl
  · rintro ⟨hc, hcs, hapart⟩
    refine ⟨hc, hcs, fun i hi j hj hij => ?_⟩
    obtain ⟨d, hd, hjd⟩ := List.mem_flatMap.mp hj
    exact hapart d hd i hi (hij ▸ hjd)

end QueryTyping.Expr
