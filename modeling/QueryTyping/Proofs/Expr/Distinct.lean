import QueryTyping.Proofs.Expr.Items
import QueryTyping.Proofs.Expr.Numbering
import QueryTyping.Proofs.Expr.WithoutIds

/-!
# Making the ids of a tree distinct

A tree is numbered anew only if two of its ids are equal.  It then has the numbers from 1 on, one for
each node and one for each name that a node binds, in the order of the ids.  Either way the ids are
distinct afterwards, so doing it a second time changes nothing.

Main statements: `length_ids` counts the ids, and `ids_distinct` says what the tree is made into and
when that is a new one.
-/

namespace QueryTyping.Expr

variable {e : Expr}

/-- The names that the nodes of a tree bind. -/
def bindings (e : Expr) : List Binding := e.nodes.filterMap bound?

/-- **Ids are counted.**  There is one for each node and one for each bound name. -/
theorem length_ids (e : Expr) : e.ids.length = e.nodes.length + e.bindings.length := by
  rw [← map_id_items, List.length_map, items, bindings]
  induction e.nodes with
  | nil => rfl
  | cons d ds ih =>
      rw [List.flatMap_cons, List.length_append, ih, List.length_cons, List.filterMap_cons]
      cases hb : d.bound? with
      | none =>
          have hown : d.ownItems.length = 1 := by simp [ownItems, hb]
          rw [hown]
          dsimp only
          omega
      | some b =>
          have hown : d.ownItems.length = 2 := by simp [ownItems, hb]
          rw [hown, List.length_cons]
          omega

theorem distinct_of_not_nodup (h : ¬ e.ids.Nodup) : e.distinct = ((e.renumber 1).1, true) := by
  simp [distinct, hasDistinctIds, h]

/-- A tree is numbered anew if its ids are not distinct. -/
theorem distinct_snd_iff : e.distinct.2 = false ↔ e.ids.Nodup := by
  by_cases h : e.ids.Nodup
  · simp [distinct_of_nodup h, h]
  · simp [distinct_of_not_nodup h, h]

/-- What is done once need not be done again. -/
theorem distinct_distinct (e : Expr) : e.distinct.1.distinct = (e.distinct.1, false) :=
  distinct_of_nodup (nodup_distinct e)

/-- **Distinct ids.**  The ids of the tree that is made are distinct, and apart from ids it is the
given one.  It is a new one only if the given ids are not distinct.  If they are, no id changes;
otherwise the ids are the numbers from 1 to the number of nodes and bound names, in order.  Doing it
again changes nothing and says so. -/
theorem ids_distinct (e : Expr) :
    e.distinct.1.ids.Nodup ∧ e.distinct.1.withoutIds = e.withoutIds ∧
      (e.distinct.2 = false ↔ e.ids.Nodup) ∧
      (e.distinct.2 = false → e.distinct.1 = e) ∧
      (e.distinct.2 = true →
        e.distinct.1.ids = List.range' 1 (e.nodes.length + e.bindings.length)) ∧
      e.distinct.1.distinct = (e.distinct.1, false) := by
  refine ⟨nodup_distinct e, withoutIds_distinct e, distinct_snd_iff, fun h => ?_, fun h => ?_,
    distinct_distinct e⟩
  · rw [distinct_of_nodup (distinct_snd_iff.mp h)]
  · have hnot : ¬ e.ids.Nodup := by
      rw [← distinct_snd_iff, h]
      exact Bool.noConfusion
    rw [distinct_of_not_nodup hnot, ← length_ids]
    exact (ids_renumber e 1).1

end QueryTyping.Expr
