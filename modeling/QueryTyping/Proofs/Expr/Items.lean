import Mathlib.Data.List.Basic
import QueryTyping.Expr.Fold

/-!
# What the ids of a tree stand for

An id of a tree belongs to a node, or to the name that a node binds.  The items of a tree are its
nodes, each followed by the name it binds, so they stand in the order of the ids.

Main statements: `items_eq` gives the items of a tree from those of its children, and `map_id_items`
says that their ids are the ids of the tree.
-/

namespace QueryTyping

/-- What an id of a tree stands for. -/
inductive Item where
  | node (e : Expr)
  | bound (b : Binding)

/-- The id of an item. -/
def Item.id : Item → NodeId
  | node e => e.id
  | bound b => b.id

namespace Expr

/-- The topmost node, and the name that it binds. -/
def ownItems (e : Expr) : List Item := .node e :: (e.bound?.map .bound).toList

/-- All nodes of a tree, each before the name that it binds. -/
def items (e : Expr) : List Item := e.nodes.flatMap ownItems

/-- The items of a tree are those of its root and then those of each child. -/
theorem items_eq (e : Expr) : e.items = e.ownItems ++ e.children.flatMap items := by
  rw [items, nodes_eq, List.flatMap_cons, List.flatMap_assoc]
  rfl

theorem map_id_ownItems (e : Expr) : e.ownItems.map Item.id = e.ownIds := by
  rw [ownItems, ownIds]
  cases e.bound? <;> rfl

/-- **Items stand for ids, in order.** -/
theorem map_id_items (e : Expr) : e.items.map Item.id = e.ids := by
  induction e using children_induction with
  | node e ih =>
      rw [items_eq, ids_eq, List.map_append, map_id_ownItems, List.map_flatMap]
      exact congrArg (e.ownIds ++ ·) (List.flatMap_congr ih)

theorem node_mem_items {e d : Expr} : .node d ∈ e.items ↔ d ∈ e.nodes := by
  rw [items, List.mem_flatMap]
  constructor
  · rintro ⟨c, hc, hmem⟩
    simp only [ownItems, List.mem_cons, Option.mem_toList, Option.map_eq_some_iff, Item.node.injEq,
      reduceCtorEq, and_false, exists_false, or_false] at hmem
    exact hmem ▸ hc
  · intro hd
    exact ⟨d, hd, List.mem_cons_self⟩

theorem bound_mem_items {e d : Expr} {b : Binding} (hd : d ∈ e.nodes) (hb : d.bound? = some b) :
    .bound b ∈ e.items := by
  rw [items, List.mem_flatMap]
  exact ⟨d, hd, by simp [ownItems, hb]⟩

end Expr
end QueryTyping
