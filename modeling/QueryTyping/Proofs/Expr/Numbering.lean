import QueryTyping.Expr.Numbering
import QueryTyping.Proofs.Expr.Ids

/-!
# Numbers of a tree

A tree that is numbered from `next` on has the ids `next`, `next + 1` and so on, in the order of its
ids, so they are distinct.

Main statements: `renumber_eq` says that a node is numbered before its children, `ids_renumber` gives
the ids of a numbered tree, and `nodup_distinct` says that a tree is made one of distinct ids.
-/

namespace QueryTyping.Expr

/-- **Numbering, from the root down.**  A node and the name it binds come first, and then the
children in a row. -/
theorem renumber_eq (e : Expr) (next : NodeId) :
    (e.renumber next).1.ownIds = List.range' next e.ownIds.length ∧
      (e.renumber next).1.children = (renumberAll e.children (next + e.ownIds.length)).1 ∧
      (e.renumber next).2 = (renumberAll e.children (next + e.ownIds.length)).2 := by
  cases e with
  | comprehension n b s p q =>
      cases p <;> cases q <;>
        simp [renumber, renumberOption, renumberAll, ownIds, bound?, children, id, node,
          List.range'_succ]
  | quantified n k b s p =>
      cases p <;>
        simp [renumber, renumberOption, renumberAll, ownIds, bound?, children, id, node,
          List.range'_succ]
  | _ =>
      simp [renumber, renumberAll, ownIds, bound?, children, id, node]

/-- Trees in a row that are numbered one after the other. -/
theorem ids_renumberAll {es : List Expr}
    (ih : ∀ e ∈ es, ∀ next, (e.renumber next).1.ids = List.range' next e.ids.length ∧
      (e.renumber next).2 = next + e.ids.length) (next : NodeId) :
    (renumberAll es next).1.flatMap ids = List.range' next (es.flatMap ids).length ∧
      (renumberAll es next).2 = next + (es.flatMap ids).length := by
  induction es generalizing next with
  | nil => simp [renumberAll]
  | cons e es ihs =>
      obtain ⟨hids, hnext⟩ := ih e List.mem_cons_self next
      obtain ⟨hrest, hlast⟩ :=
        ihs (fun d hd => ih d (List.mem_cons_of_mem _ hd)) (next + e.ids.length)
      simp only [renumberAll, List.flatMap_cons, List.length_append, hids, hnext]
      rw [hrest, hlast, List.range'_append_1, Nat.add_assoc]
      exact ⟨rfl, rfl⟩

/-- **The ids of a numbered tree.** -/
theorem ids_renumber (e : Expr) (next : NodeId) :
    (e.renumber next).1.ids = List.range' next e.ids.length ∧
      (e.renumber next).2 = next + e.ids.length := by
  induction e using children_induction generalizing next with
  | node e ih =>
      obtain ⟨hown, hchildren, hnext⟩ := renumber_eq e next
      obtain ⟨hids, hlast⟩ := ids_renumberAll ih (next + e.ownIds.length)
      have hlength : e.ids.length = e.ownIds.length + (e.children.flatMap ids).length := by
        rw [ids_eq, List.length_append]
      rw [hlength]
      constructor
      · rw [ids_eq, hown, hchildren, hids, List.range'_append_1]
      · rw [hnext, hlast, Nat.add_assoc]

theorem nodup_renumber (e : Expr) (next : NodeId) : (e.renumber next).1.ids.Nodup := by
  rw [(ids_renumber e next).1]
  exact List.nodup_range'

/-- **A tree is made one of distinct ids.** -/
theorem nodup_distinct (e : Expr) : e.distinct.1.ids.Nodup := by
  rw [distinct]
  split
  · rename_i h
    exact of_decide_eq_true h
  · exact nodup_renumber e 1

end QueryTyping.Expr
