import QueryTyping.Analysis
import QueryTyping.Proofs.Expr.Walk

/-!
# What folds over a tree visit

A fold that gathers something at each node, and does not go on from some nodes, gathers it along its
visits.  These are the nodes that are entered on its walk, so they come in pre-order and each of them
once, as addresses that come before one another are different.

If the fold goes on from every node, its visits are the nodes of the tree.  Leaving out the root, which
is the only node with its address, leaves the nodes below it.  Gathering ids gives the ids of the tree,
and an analysis has types for every node.

Main statements: `foldAt_collect` says what a fold gathers, `descendants_eq` and `ids_eq_flatMap` what
the nodes and the ids of a tree are, and `visits_and_walk` puts everything about folds together.
-/

namespace QueryTyping

open Address

/-- The types of all nodes as a table, in which a later entry replaces an earlier one. -/
def Analysis.typesById (a : Analysis) : Table NodeId TypeSet :=
  a.typesBelow.foldl (fun t entry => t.set entry.1 entry.2) .empty

namespace Expr

open Moment

/-- The nodes that a fold comes to, each with its address.  It does not go on from a node that is
pruned. -/
def visits (prune : Address → Expr → Bool) (e : Expr) : List (Address × Expr) :=
  e.foldAt (fun p d found go =>
    if prune p d then found ++ [(p, d)] else go (found ++ [(p, d)])) []

/-- The visits of a fold that goes on from every node. -/
def allVisits (e : Expr) : List (Address × Expr) := e.visits fun _ _ => false

variable {prune : Address → Expr → Bool} {e d : Expr} {p : Address} {β : Type}

/-! What is gathered along the visits -/

theorem foldl_perform_collect (f : Address → Expr → List β) (ms : List Moment) (found : List β) :
    ms.foldl (perform (fun p d found => found ++ f p d) fun _ _ found => found) found =
      found ++ (ms.filterMap entered?).flatMap fun v => f v.1 v.2 := by
  induction ms generalizing found with
  | nil => simp
  | cons m ms ih =>
      rw [List.foldl_cons, ih]
      cases m with
      | enter p d =>
          rw [perform, List.filterMap_cons, entered?, List.flatMap_cons, List.append_assoc]
      | leave p d => rfl

/-- A fold that gathers something does so along its walk. -/
theorem foldAt_collect_walk (prune : Address → Expr → Bool) (f : Address → Expr → List β)
    (e : Expr) :
    e.foldAt (fun p d found go =>
        if prune p d then found ++ f p d else go (found ++ f p d)) [] =
      ((e.walk prune).filterMap entered?).flatMap fun v => f v.1 v.2 := by
  change e.foldAt (pruning prune (fun p d found => found ++ f p d) fun _ _ found => found) [] = _
  rw [foldAt_pruning, foldl_perform_collect, List.nil_append]

/-- What is visited is what is entered. -/
theorem visits_eq (prune : Address → Expr → Bool) (e : Expr) :
    e.visits prune = (e.walk prune).filterMap entered? := by
  rw [visits, foldAt_collect_walk prune fun p d => [(p, d)]]
  exact List.flatMap_singleton' _

/-- **What a fold gathers.** -/
theorem foldAt_collect (prune : Address → Expr → Bool) (f : Address → Expr → List β) (e : Expr) :
    e.foldAt (fun p d found go =>
        if prune p d then found ++ f p d else go (found ++ f p d)) [] =
      (e.visits prune).flatMap fun v => f v.1 v.2 := by
  rw [foldAt_collect_walk, visits_eq]

/-- What a fold gathers whose visitor does not look at addresses. -/
theorem fold_collect (prune : Expr → Bool) (f : Expr → List β) (e : Expr) :
    e.fold (fun d found go => if prune d then found ++ f d else go (found ++ f d)) [] =
      (e.visits fun _ => prune).flatMap fun v => f v.2 := by
  rw [← foldAt_const, ← foldAt_collect (fun _ => prune) fun _ => f]

/-- What a fold gathers that goes on from every node. -/
theorem fold_collect_all (f : Expr → List β) (e : Expr) :
    e.fold (fun d found go => go (found ++ f d)) [] = e.allVisits.flatMap fun v => f v.2 :=
  fold_collect (fun _ => false) f e

/-! The order of the visits -/

theorem mem_visits_iff : (p, d) ∈ e.visits prune ↔ e.Reaches prune p d := by
  rw [visits_eq, List.mem_filterMap, ← enter_mem_walk_iff]
  simp only [entered_eq_some_iff, exists_eq_right]

/-- What is selected at some moments of a walk comes in an order that these moments have. -/
theorem pairwise_selected {select : Moment → Option (Address × Expr)}
    {order : Address → Address → Prop}
    (horder : ∀ {m n : Moment}, m.Before n →
      ∀ v, select m = some v → ∀ w, select n = some w → order v.1 w.1) :
    (((e.walk prune).filterMap select).map Prod.fst).Pairwise order := by
  rw [List.pairwise_map, List.pairwise_filterMap]
  exact (pairwise_before_walk prune e).imp horder

theorem pairwise_visits (prune : Address → Expr → Bool) (e : Expr) :
    ((e.visits prune).map Prod.fst).Pairwise PreOrder := by
  rw [visits_eq]
  refine pairwise_selected fun {m n} hbefore v hv w hw => ?_
  rw [entered_eq_some_iff] at hv hw
  rw [hv, hw] at hbefore
  exact hbefore

theorem nodup_visits (prune : Address → Expr → Bool) (e : Expr) :
    ((e.visits prune).map Prod.fst).Nodup :=
  (pairwise_visits prune e).imp PreOrder.ne

theorem mem_filterMap_left_iff :
    (p, d) ∈ (e.walk prune).filterMap left? ↔ (p, d) ∈ e.visits prune ∧ prune p d = false := by
  rw [mem_visits_iff, List.mem_filterMap, ← leave_mem_walk_iff]
  simp only [left_eq_some_iff, exists_eq_right]

theorem pairwise_left (prune : Address → Expr → Bool) (e : Expr) :
    (((e.walk prune).filterMap left?).map Prod.fst).Pairwise PostOrder := by
  refine pairwise_selected fun {m n} hbefore v hv w hw => ?_
  rw [left_eq_some_iff] at hv hw
  rw [hv, hw] at hbefore
  exact hbefore

/-- The visits begin at the root and do not come back to it. -/
theorem visits_eq_cons (prune : Address → Expr → Bool) (e : Expr) :
    ∃ below, e.visits prune = ([], e) :: below ∧ ∀ v ∈ below, v.1 ≠ [] := by
  have hnodup := nodup_visits prune e
  have hroot : e.visits prune = ([], e) ::
      (if prune [] e then [] else e.walkBelow prune ++ [.leave [] e]).filterMap entered? := by
    rw [visits_eq, walk_eq, walkFrom, List.filterMap_cons, entered?]
  rw [hroot, List.map_cons, List.nodup_cons] at hnodup
  refine ⟨_, hroot, fun v hv heq => hnodup.1 ?_⟩
  exact List.mem_map.mpr ⟨v, hv, heq⟩

/-! The whole tree -/

theorem nodes_eq_map (e : Expr) : e.nodes = e.allVisits.map Prod.snd := by
  rw [nodes, fold_collect_all fun d => [d], List.map_eq_flatMap]

theorem cons_descendants (e : Expr) : e :: e.descendants = e.nodes := by
  rw [descendants, nodes_eq, List.tail_cons]

/-- **Descendants.**  They are what a fold gathers that leaves out the node at the root. -/
theorem descendants_eq (e : Expr) :
    e.descendants =
      e.foldAt (fun p d found go => go (if p = [] then found else found ++ [d])) [] := by
  have hvisit : (fun (p : Address) (d : Expr) (found : List Expr) (go : List Expr → List Expr) =>
      go (if p = [] then found else found ++ [d])) =
      fun p d found go =>
        if false = true then found ++ (if p = [] then [] else [d])
        else go (found ++ (if p = [] then [] else [d])) := by
    funext p d found go
    by_cases hp : p = [] <;> simp [hp]
  obtain ⟨below, hvisits, hne⟩ := visits_eq_cons (fun _ _ => false) e
  have hbelow : below.flatMap (fun v => if v.1 = [] then [] else [v.2]) = below.map Prod.snd := by
    rw [List.map_eq_flatMap]
    exact List.flatMap_congr fun v hv => if_neg (hne v hv)
  rw [hvisit, foldAt_collect (fun _ _ => false) fun p d => if p = [] then [] else [d], hvisits,
    List.flatMap_cons, if_pos rfl, List.nil_append, hbelow, descendants, nodes_eq_map, allVisits,
    hvisits, List.map_cons, List.tail_cons]

/-- **Ids.**  They are those of the nodes, each before that of the name that the node binds. -/
theorem ids_eq_flatMap (e : Expr) :
    e.ids = e.nodes.flatMap fun d : Expr => d.id :: (d.bound?.map Binding.id).toList := by
  rw [ids, fold_collect_all, nodes_eq_map, List.flatMap_map]
  rfl

theorem get_foldl_set (types : NodeId → TypeSet) (es : List Expr) (t : Table NodeId TypeSet)
    (i : NodeId) :
    ((es.map fun d : Expr => (d.id, types d.id)).foldl (fun t entry => t.set entry.1 entry.2) t).get? i =
      if i ∈ es.map Expr.id then some (types i) else t.get? i := by
  induction es generalizing t with
  | nil => simp
  | cons d es ih =>
      rw [List.map_cons, List.foldl_cons, ih, Table.get_set, List.map_cons]
      by_cases hi : i = d.id
      · subst hi
        simp
      · simp [hi]

/-- **Types by id.**  There is an entry for every node, and none besides. -/
theorem get_typesById (a : Analysis) (i : NodeId) (types : TypeSet) :
    a.typesById.get? i = some types ↔ ∃ d ∈ a.root.nodes, d.id = i ∧ a.types d = types := by
  have htable : a.typesById = (a.root.nodes.map fun d : Expr => (d.id, a.state.types d.id)).foldl
      (fun t entry => t.set entry.1 entry.2) .empty := rfl
  rw [htable, get_foldl_set a.state.types, Table.get_empty, Option.ite_none_right_eq_some, List.mem_map]
  constructor
  · rintro ⟨⟨d, hd, rfl⟩, htypes⟩
    exact ⟨d, hd, rfl, Option.some.inj htypes⟩
  · rintro ⟨d, hd, rfl, htypes⟩
    exact ⟨⟨d, hd, rfl⟩, congrArg some htypes⟩

/-! Everything about folds -/

/-- The visits of a fold are the nodes below no node that is pruned, in pre-order and each once. -/
structure VisitsInOrder (prune : Address → Expr → Bool) (e : Expr) : Prop where
  reaches : ∀ p d, (p, d) ∈ e.visits prune ↔ e.Reaches prune p d
  preOrder : ((e.visits prune).map Prod.fst).Pairwise PreOrder
  once : ((e.visits prune).map Prod.fst).Nodup

/-- On a walk the visited nodes are entered.  Those from which it goes on are left, in post-order, and
between the two moments of a node the visited nodes below it are entered and no others. -/
structure LeavesInOrder (prune : Address → Expr → Bool) (e : Expr) : Prop where
  entered : (e.walk prune).filterMap entered? = e.visits prune
  left : ∀ p d, (p, d) ∈ (e.walk prune).filterMap left? ↔
    (p, d) ∈ e.visits prune ∧ prune p d = false
  postOrder : (((e.walk prune).filterMap left?).map Prod.fst).Pairwise PostOrder
  between : ∀ p d, (p, d) ∈ e.visits prune → prune p d = false →
    ∃ earlier between later : List Moment,
      e.walk prune = earlier ++ .enter p d :: (between ++ .leave p d :: later) ∧
      ∀ q c, (q, c) ∈ between.filterMap entered? ↔ (q, c) ∈ e.visits prune ∧ Above p q

/-- A fold that goes on from every node visits the root and then its descendants, which are what is left
without the node at the root.  Their ids, each before that of the name its node binds, are the ids of
the tree, and in an analysis each of them has an entry with its types. -/
structure VisitsAll (e : Expr) : Prop where
  nodes : e.allVisits.map Prod.snd = e :: e.descendants
  descendants : e.descendants =
    e.foldAt (fun p d found go => go (if p = [] then found else found ++ [d])) []
  ids : e.ids = (e :: e.descendants).flatMap fun d : Expr => d.id :: (d.bound?.map Binding.id).toList
  types : ∀ a : Analysis, a.root = e → ∀ i types, a.typesById.get? i = some types ↔
    ∃ d ∈ e :: e.descendants, d.id = i ∧ a.types d = types

theorem visitsInOrder (prune : Address → Expr → Bool) (e : Expr) : e.VisitsInOrder prune :=
  ⟨fun _ _ => mem_visits_iff, pairwise_visits prune e, nodup_visits prune e⟩

theorem leavesInOrder (prune : Address → Expr → Bool) (e : Expr) : e.LeavesInOrder prune := by
  refine ⟨(visits_eq prune e).symm, fun _ _ => mem_filterMap_left_iff, pairwise_left prune e, ?_⟩
  intro p d hvisit hprune
  have hleave : .leave p d ∈ e.walk prune :=
    leave_mem_walk_iff.mpr ⟨mem_visits_iff.mp hvisit, hprune⟩
  obtain ⟨earlier, between, later, hsplit⟩ := exists_between hleave
  refine ⟨earlier, between, later, hsplit, fun q c => ?_⟩
  rw [List.mem_filterMap, mem_visits_iff, ← enter_mem_walk_iff, ← enter_mem_between_iff hsplit]
  simp only [entered_eq_some_iff, exists_eq_right]

theorem visitsAll (e : Expr) : e.VisitsAll := by
  refine ⟨?_, descendants_eq e, ?_, ?_⟩
  · rw [cons_descendants, nodes_eq_map]
  · rw [cons_descendants, ids_eq_flatMap]
  · rintro a rfl i types
    rw [cons_descendants, get_typesById]

/-- **Folds visit in pre-order and prune exactly.**  A fold that does not go on from the nodes that are
pruned visits the nodes below none of these, in pre-order and each once, whether its visitor tells
nodes apart by their addresses or not.  Work after going on is done in post-order, when just the
visited nodes below a node have been visited.  If nothing is pruned, the visits are the root and its
descendants, and the ids and types of a tree are those of all of them. -/
theorem visits_and_walk (e : Expr) (prune : Address → Expr → Bool) :
    e.VisitsInOrder prune ∧ e.LeavesInOrder prune ∧
    (∀ {α : Type} (before after : Address → Expr → α → α) (a : α),
      e.foldAt (fun p d a go =>
          if prune p d then before p d a else after p d (go (before p d a))) a =
        (e.walk prune).foldl (perform before after) a) ∧
    (∀ cut : Expr → Bool,
      e.fold (fun d found go => if cut d then found ++ [d] else go (found ++ [d])) [] =
        (e.visits fun _ => cut).map Prod.snd) ∧
    (∀ {α : Type} (cut : Expr → Bool) (before after : Expr → α → α) (a : α),
      e.fold (fun d a go => if cut d then before d a else after d (go (before d a))) a =
        (e.walk fun _ => cut).foldl (perform (fun _ => before) fun _ => after) a) ∧
    e.VisitsAll := by
  refine ⟨visitsInOrder prune e, leavesInOrder prune e, ?_, ?_, ?_, visitsAll e⟩
  · intro α before after a
    exact foldAt_pruning e prune before after a
  · intro cut
    rw [fold_collect cut fun d => [d], List.map_eq_flatMap]
  · intro α cut before after a
    rw [← foldAt_const]
    exact foldAt_pruning e (fun _ => cut) (fun _ => before) (fun _ => after) a

end Expr
end QueryTyping
