import QueryTyping.Expr.Basic

/-!
# Folding over an expression

A fold visits the nodes of a tree from the top down and from left to right.  At each node the
visitor is given what was gathered so far and a way to go on through the children; a visitor that
does not go on leaves the subtree out.  What the visitor does after going on happens when the
whole subtree has been visited.

Main statements: `fold_eq` ties the fold to the children of a node, and `nodes_eq` says that the
nodes of a tree are its root followed by the nodes of each child.
-/

namespace QueryTyping

variable {α : Type}

mutual

/-- Fold over a tree. -/
def Expr.fold (visit : Expr → α → (α → α) → α) : Expr → α → α
  | .literal n v, a => visit (.literal n v) a id
  | .reference n x, a => visit (.reference n x) a id
  | .parameter n x, a => visit (.parameter n x) a id
  | .countStar n, a => visit (.countStar n) a id
  | .list n es, a => visit (.list n es) a (foldAll visit es)
  | .property n m k, a => visit (.property n m k) a (m.fold visit)
  | .unary n op e, a => visit (.unary n op e) a (e.fold visit)
  | .binary n op l r, a => visit (.binary n op l r) a fun a => r.fold visit (l.fold visit a)
  | .call n f d es, a => visit (.call n f d es) a (foldAll visit es)
  | .comprehension n b s p q, a =>
      visit (.comprehension n b s p q) a fun a =>
        foldOption visit q (foldOption visit p (s.fold visit a))
  | .quantified n k b s p, a =>
      visit (.quantified n k b s p) a fun a => foldOption visit p (s.fold visit a)

/-- Fold over trees, one after the other. -/
def foldAll (visit : Expr → α → (α → α) → α) : List Expr → α → α
  | [], a => a
  | e :: es, a => foldAll visit es (e.fold visit a)

/-- Fold over a tree that may be missing. -/
def foldOption (visit : Expr → α → (α → α) → α) : Option Expr → α → α
  | none, a => a
  | some e, a => e.fold visit a

end

theorem foldAll_eq_foldl (visit : Expr → α → (α → α) → α) (es : List Expr) (a : α) :
    foldAll visit es a = es.foldl (fun a e => e.fold visit a) a := by
  induction es generalizing a with
  | nil => rw [foldAll, List.foldl_nil]
  | cons e es ih => rw [foldAll, ih, List.foldl_cons]

theorem foldOption_eq_foldl (visit : Expr → α → (α → α) → α) (p : Option Expr) (a : α) :
    foldOption visit p a = p.toList.foldl (fun a e => e.fold visit a) a := by
  cases p with
  | none => rw [foldOption, Option.toList_none, List.foldl_nil]
  | some e => rw [foldOption, Option.toList_some, List.foldl_cons, List.foldl_nil]

namespace Expr

/-- Going on from a node folds over its children in turn. -/
theorem fold_eq (visit : Expr → α → (α → α) → α) (e : Expr) (a : α) :
    e.fold visit a =
      visit e a fun a => e.children.foldl (fun a c => c.fold visit a) a := by
  cases e <;> rw [fold] <;> congr 1 <;> funext a <;>
    simp [children, foldAll_eq_foldl, foldOption_eq_foldl]

/-- All nodes of a tree, a node before its children. -/
def nodes (e : Expr) : List Expr := e.fold (fun e found go => go (found ++ [e])) []

/-- The nodes below the root. -/
def descendants (e : Expr) : List Expr := e.nodes.tail

/-- The ids of all nodes and bindings, each binding after its node. -/
def ids (e : Expr) : List NodeId := e.fold (fun e found go => go (found ++ e.ownIds)) []

/-- A fold that appends something at each node. -/
theorem fold_append (f : Expr → List α) (e : Expr) (a : List α) :
    e.fold (fun e a go => go (a ++ f e)) a = a ++ e.fold (fun e a go => go (a ++ f e)) [] := by
  have key : ∀ e : Expr, ∀ a, e.fold (fun e a go => go (a ++ f e)) a =
      a ++ e.fold (fun e a go => go (a ++ f e)) [] := by
    intro e
    induction e using children_induction with
    | node e ih =>
        have run : ∀ cs : List Expr, (∀ c ∈ cs, c ∈ e.children) → ∀ a : List α,
            cs.foldl (fun a c => c.fold (fun e a go => go (a ++ f e)) a) a =
              a ++ cs.foldl (fun a c => c.fold (fun e a go => go (a ++ f e)) a) [] := by
          intro cs
          induction cs with
          | nil => simp
          | cons c cs ihs =>
              intro hcs a
              have hc := ih c (hcs c List.mem_cons_self)
              have hrest := ihs fun d hd => hcs d (List.mem_cons_of_mem _ hd)
              rw [List.foldl_cons, List.foldl_cons, hrest (c.fold _ a), hc a,
                hrest (c.fold _ []), List.append_assoc]
        intro a
        rw [fold_eq, fold_eq]
        change (e.children.foldl _ (a ++ f e)) = a ++ e.children.foldl _ ([] ++ f e)
        rw [run _ (fun _ h => h) (a ++ f e), run _ (fun _ h => h) ([] ++ f e)]
        simp
  exact key e a

/-- What a fold appends at the nodes of a list of trees, one tree after the other. -/
theorem foldl_fold_append (f : Expr → List α) (es : List Expr) (a : List α) :
    es.foldl (fun a c => c.fold (fun e a go => go (a ++ f e)) a) a =
      a ++ es.flatMap fun c => c.fold (fun e a go => go (a ++ f e)) [] := by
  induction es generalizing a with
  | nil => simp
  | cons c es ih => rw [List.foldl_cons, ih, fold_append, List.flatMap_cons, List.append_assoc]

/-- The nodes of a tree are its root and then the nodes of each child. -/
theorem nodes_eq (e : Expr) : e.nodes = e :: e.children.flatMap nodes := by
  rw [nodes, fold_eq]
  exact foldl_fold_append (fun e => [e]) e.children ([] ++ [e])

/-- The ids of a tree are those of its root and then those of each child. -/
theorem ids_eq (e : Expr) : e.ids = e.ownIds ++ e.children.flatMap ids := by
  rw [ids, fold_eq]
  exact foldl_fold_append ownIds e.children ([] ++ e.ownIds)

end Expr
end QueryTyping
