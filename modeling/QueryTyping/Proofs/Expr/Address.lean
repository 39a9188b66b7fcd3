import Mathlib.Data.List.Infix
import QueryTyping.Expr.Fold

/-!
# Addresses of nodes

Equal nodes can stand at several places of a tree.  The address of a node, which child to go to at each
step from the root down, tells them apart.  Of two addresses one stands below the other, or one is
further left: it goes to an earlier child where they part.  With nodes before what is below them this
gives the pre-order of a tree, and with nodes after what is below them the post-order.

A visitor of a fold is given a node and not its address.  It need not be given it, for it can count: it
keeps the address beside what it gathers, goes on at the first child, and is the next child when it has
come back.  So a fold with a visitor that is told addresses is a fold as any other.

Main statements: `foldAt_eq` is the equation of a fold with addresses, and `foldAt_const` says that with
a visitor that does not look at them it is the plain fold.
-/

namespace QueryTyping

/-- Where a node stands in a tree: which child to go to, from the root down. -/
abbrev Address := List Nat

namespace Address

variable {p q : Address} {i j : Nat}

/-- The second address stands properly below the first. -/
def Above (p q : Address) : Prop := p <+: q ∧ p ≠ q

/-- Where the addresses part, the first one goes to an earlier child. -/
def LeftOf : Address → Address → Prop
  | i :: p, j :: q => i < j ∨ i = j ∧ LeftOf p q
  | _, _ => False

/-- A node comes before what is below it, and children come from left to right. -/
def PreOrder (p q : Address) : Prop := Above p q ∨ LeftOf p q

/-- A node comes after what is below it, and children come from left to right. -/
def PostOrder (p q : Address) : Prop := Above q p ∨ LeftOf p q

@[simp] theorem above_cons_iff : Above (i :: p) (i :: q) ↔ Above p q := by
  simp [Above]

theorem above_nil (i : Nat) (p : Address) : Above [] (i :: p) :=
  ⟨List.nil_prefix, List.cons_ne_nil i p |>.symm⟩

@[simp] theorem leftOf_cons_iff : LeftOf (i :: p) (i :: q) ↔ LeftOf p q := by
  simp [LeftOf]

theorem leftOf_of_lt (h : i < j) (p q : Address) : LeftOf (i :: p) (j :: q) := .inl h

@[simp] theorem preOrder_cons_iff : PreOrder (i :: p) (i :: q) ↔ PreOrder p q := by
  simp [PreOrder]

@[simp] theorem postOrder_cons_iff : PostOrder (i :: p) (i :: q) ↔ PostOrder p q := by
  simp [PostOrder]

theorem LeftOf.asymm (h : LeftOf p q) : ¬ LeftOf q p := by
  induction p generalizing q with
  | nil => cases h
  | cons i p ih =>
      cases q with
      | nil => cases h
      | cons j q =>
          rcases h with hij | ⟨rfl, h⟩
          · rintro (hji | ⟨rfl, -⟩)
            · omega
            · omega
          · rw [leftOf_cons_iff]
            exact ih h

theorem not_leftOf_self (p : Address) : ¬ LeftOf p p := fun h => h.asymm h

/-- An address is not further left than what is below it. -/
theorem not_leftOf_below (h : p <+: q) : ¬ LeftOf p q := by
  induction p generalizing q with
  | nil => exact id
  | cons i p ih =>
      obtain ⟨rest, rfl⟩ := h
      rw [List.cons_append, leftOf_cons_iff]
      exact ih (List.prefix_append p rest)

/-- Nor is it further right. -/
theorem not_leftOf_above (h : p <+: q) : ¬ LeftOf q p := by
  induction p generalizing q with
  | nil => cases q <;> exact id
  | cons i p ih =>
      obtain ⟨rest, rfl⟩ := h
      rw [List.cons_append, leftOf_cons_iff]
      exact ih (List.prefix_append p rest)

theorem PreOrder.ne (h : PreOrder p q) : p ≠ q := by
  rintro rfl
  exact h.elim (fun h => h.2 rfl) (not_leftOf_self p)

/-- The address of the next child of the same node. -/
def next (p : Address) : Address := p.dropLast ++ [p.getLastD 0 + 1]

@[simp] theorem next_concat (p : Address) (i : Nat) : next (p ++ [i]) = p ++ [i + 1] := by
  simp [next]

end Address

namespace Expr

variable {α : Type}

/-- The node at an address. -/
def at? : Expr → Address → Option Expr
  | e, [] => some e
  | e, i :: p => e.children[i]?.bind fun c => c.at? p

@[simp] theorem at?_nil (e : Expr) : e.at? [] = some e := rfl

@[simp] theorem at?_cons (e : Expr) (i : Nat) (p : Address) :
    e.at? (i :: p) = e.children[i]?.bind fun c => c.at? p := rfl

/-- A visitor that keeps the address of the node beside what is gathered. -/
def counting (visit : Address → Expr → α → (α → α) → α) (e : Expr) (s : α × Address)
    (go : α × Address → α × Address) : α × Address :=
  (visit s.2 e s.1 fun a => (go (a, s.2 ++ [0])).1, s.2.next)

/-- Fold over a tree with a visitor that is told the address of each node. -/
def foldAt (visit : Address → Expr → α → (α → α) → α) (e : Expr) (a : α) : α :=
  (e.fold (counting visit) (a, [])).1

/-- Children in a row are folded over at successive addresses. -/
theorem foldl_fold_counting (cs : List Expr)
    (ih : ∀ c ∈ cs, ∀ (visit : Address → Expr → α → (α → α) → α) (a : α) (p : Address),
      c.fold (counting visit) (a, p) = (c.foldAt (fun q => visit (p ++ q)) a, p.next))
    (visit : Address → Expr → α → (α → α) → α) (a : α) (p : Address) (i : Nat) :
    (cs.foldl (fun s c => c.fold (counting visit) s) (a, p ++ [i])).1 =
      (cs.zipIdx i).foldl (fun a ci => ci.1.foldAt (fun q => visit (p ++ ci.2 :: q)) a) a := by
  induction cs generalizing a i with
  | nil => rfl
  | cons c cs ihs =>
      have hc := ih c List.mem_cons_self visit a (p ++ [i])
      rw [Address.next_concat] at hc
      simp only [List.foldl_cons, List.zipIdx_cons, hc]
      rw [ihs (fun d hd => ih d (List.mem_cons_of_mem _ hd))]
      simp only [List.append_assoc, List.singleton_append]

/-- A fold that starts at some address, and ends at the next one. -/
theorem fold_counting (visit : Address → Expr → α → (α → α) → α) (e : Expr) (a : α)
    (p : Address) :
    e.fold (counting visit) (a, p) = (e.foldAt (fun q => visit (p ++ q)) a, p.next) := by
  induction e using children_induction generalizing visit a p with
  | node e ih =>
      have hhere := fun a => foldl_fold_counting e.children ih visit a p 0
      have hroot := fun a => foldl_fold_counting e.children ih (fun q => visit (p ++ q)) a [] 0
      simp only [List.nil_append] at hroot
      rw [foldAt, fold_eq, fold_eq, counting, counting]
      simp only [hhere, hroot, List.nil_append, List.append_nil]

/-- **Folding with addresses.**  The visitor is told where the root stands, and going on from there
folds over the children in turn, each with the addresses below its own. -/
theorem foldAt_eq (visit : Address → Expr → α → (α → α) → α) (e : Expr) (a : α) :
    e.foldAt visit a =
      visit [] e a fun a =>
        e.children.zipIdx.foldl (fun a ci => ci.1.foldAt (fun p => visit (ci.2 :: p)) a) a := by
  have hchildren := fun a =>
    foldl_fold_counting e.children (fun c _ visit a p => fold_counting visit c a p) visit a [] 0
  simp only [List.nil_append] at hchildren
  rw [foldAt, fold_eq, counting]
  simp only [hchildren, List.nil_append]

/-- A visitor that does not look at addresses need not be told them. -/
theorem foldAt_const (visit : Expr → α → (α → α) → α) (e : Expr) (a : α) :
    e.foldAt (fun _ => visit) a = e.fold visit a := by
  induction e using children_induction generalizing a with
  | node e ih =>
      have hchildren : ∀ a, ∀ ci ∈ e.children.zipIdx,
          ci.1.foldAt (fun _ => visit) a = ci.1.fold visit a := by
        intro a ci hci
        exact ih ci.1 (List.fst_mem_of_mem_zipIdx hci) a
      rw [foldAt_eq, fold_eq]
      congr 1
      funext a
      rw [List.foldl_ext _ _ _ hchildren]
      conv_rhs => rw [← List.zipIdx_map_fst 0 e.children, List.foldl_map]

end Expr
end QueryTyping
