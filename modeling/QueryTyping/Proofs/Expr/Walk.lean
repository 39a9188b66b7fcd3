import Mathlib.Data.List.Basic
import QueryTyping.Proofs.Expr.Address

/-!
# Walks through a tree

A visitor that works before it goes on from a node and again when it has come back, and that does not
go on from some nodes, works at the moments of a walk: each node that it comes to is entered, and left
again unless it is one of those.  Whatever the work is, the fold does it at these moments and in their
order.

The addresses alone say which of two moments is earlier.  Nodes are entered in pre-order and left in
post-order, and a node is left before another one is entered only if it is further left.  So between
the moments of one node there are those of the nodes below it and no others.

Main statements: `foldAt_pruning` says that a fold does its work along the walk, `enter_mem_walk_iff`
which nodes are entered, `pairwise_before_walk` in which order, and `enter_mem_between_iff` what happens
between entering a node and leaving it.
-/

namespace QueryTyping

open Address

/-- Coming to a node, or coming back to it after the walk below it. -/
inductive Moment where
  | enter (p : Address) (e : Expr)
  | leave (p : Address) (e : Expr)

namespace Moment

variable {p q : Address} {e : Expr} {m n : Moment} {i j : Nat}

/-- The moment as it is seen from the node whose child number `i` is the root. -/
def under (i : Nat) : Moment → Moment
  | enter p e => enter (i :: p) e
  | leave p e => leave (i :: p) e

/-- The address of the node. -/
def address : Moment → Address
  | enter p _ | leave p _ => p

/-- The node that is entered, with its address. -/
def entered? : Moment → Option (Address × Expr)
  | enter p e => some (p, e)
  | leave _ _ => none

/-- The node that is left, with its address. -/
def left? : Moment → Option (Address × Expr)
  | enter _ _ => none
  | leave p e => some (p, e)

/-- The first moment is earlier in a walk. -/
def Before : Moment → Moment → Prop
  | enter p _, enter q _ => PreOrder p q
  | enter p _, leave q _ => ¬ LeftOf q p
  | leave p _, enter q _ => LeftOf p q
  | leave p _, leave q _ => PostOrder p q

theorem entered_eq_some_iff : m.entered? = some (p, e) ↔ m = enter p e := by
  cases m <;> simp [entered?]

theorem left_eq_some_iff : m.left? = some (p, e) ↔ m = leave p e := by
  cases m <;> simp [left?]

theorem address_under (m : Moment) (i : Nat) : (m.under i).address = i :: m.address := by
  cases m <;> rfl

theorem under_eq_under_iff : m.under i = n.under j ↔ i = j ∧ m = n := by
  cases m <;> cases n <;> simp [under, and_assoc]

theorem before_under_iff : (m.under i).Before (n.under i) ↔ m.Before n := by
  cases m <;> cases n <;> simp [under, Before]

/-- What happens below a child is earlier than what happens below a child further right. -/
theorem before_of_lt (h : i < j) (m n : Moment) : (m.under i).Before (n.under j) := by
  have hleft : ∀ p q : Address, LeftOf (i :: p) (j :: q) := leftOf_of_lt h
  cases m with
  | enter p _ =>
      cases n with
      | enter q _ => exact .inr (hleft p q)
      | leave q _ => exact (hleft p q).asymm
  | leave p _ =>
      cases n with
      | enter q _ => exact hleft p q
      | leave q _ => exact .inr (hleft p q)

theorem enter_before_under (e : Expr) (m : Moment) (i : Nat) :
    (enter [] e).Before (m.under i) := by
  cases m with
  | enter p _ => exact .inl (above_nil i p)
  | leave p _ => exact id

theorem under_before_leave (e : Expr) (m : Moment) (i : Nat) :
    (m.under i).Before (leave [] e) := by
  cases m with
  | enter p _ => exact id
  | leave p _ => exact .inl (above_nil i p)

/-- What is done at a moment. -/
def perform {α : Type} (before after : Address → Expr → α → α) (a : α) : Moment → α
  | enter p e => before p e a
  | leave p e => after p e a

theorem perform_under {α : Type} (before after : Address → Expr → α → α) (a : α) (m : Moment)
    (i : Nat) :
    perform before after a (m.under i) =
      perform (fun p => before (i :: p)) (fun p => after (i :: p)) a m := by
  cases m <;> rfl

end Moment

namespace Expr

open Moment

/-- A visitor that works before it goes on and when it has come back.  At some nodes it does not go on,
and has done its work. -/
def pruning {α : Type} (prune : Address → Expr → Bool) (before after : Address → Expr → α → α)
    (p : Address) (e : Expr) (a : α) (go : α → α) : α :=
  if prune p e then before p e a else after p e (go (before p e a))

/-- The moments at which such a visitor works. -/
def walk (prune : Address → Expr → Bool) (e : Expr) : List Moment :=
  e.foldAt (pruning prune (fun p d w => w ++ [.enter p d]) fun p d w => w ++ [.leave p d]) []

/-- The moments of the walks below the children of a node. -/
def walkBelow (prune : Address → Expr → Bool) (e : Expr) : List Moment :=
  e.children.zipIdx.flatMap fun ci =>
    (ci.1.walk fun p => prune (ci.2 :: p)).map (under ci.2)

/-- The root is entered, and left after the walks below it. -/
def walkFrom (prune : Address → Expr → Bool) (e : Expr) : List Moment :=
  .enter [] e :: if prune [] e then [] else e.walkBelow prune ++ [.leave [] e]

variable {prune : Address → Expr → Bool} {e d c : Expr} {p q : Address} {m : Moment}

/-! What a fold does -/

/-- If the folds over the children work along walks, the fold over the node does. -/
theorem foldAt_walkFrom
    (ih : ∀ c ∈ e.children, ∀ {α : Type} (prune : Address → Expr → Bool)
      (before after : Address → Expr → α → α) (a : α),
      c.foldAt (pruning prune before after) a = (c.walk prune).foldl (perform before after) a)
    {α : Type} (prune : Address → Expr → Bool) (before after : Address → Expr → α → α) (a : α) :
    e.foldAt (pruning prune before after) a =
      (e.walkFrom prune).foldl (perform before after) a := by
  have hchild : ∀ a, ∀ ci ∈ e.children.zipIdx,
      ci.1.foldAt (fun p => pruning prune before after (ci.2 :: p)) a =
        ((ci.1.walk fun p => prune (ci.2 :: p)).map (under ci.2)).foldl
          (perform before after) a := by
    intro a ci hci
    simp only [List.foldl_map, perform_under]
    exact ih ci.1 (List.fst_mem_of_mem_zipIdx hci) _ _ _ a
  rw [foldAt_eq, pruning, walkFrom, List.foldl_cons, perform]
  by_cases hprune : prune [] e = true
  · rw [if_pos hprune, if_pos hprune, List.foldl_nil]
  · rw [if_neg hprune, if_neg hprune, List.foldl_append, walkBelow, List.foldl_flatMap,
      List.foldl_ext _ _ _ hchild]
    rfl

/-- Noting down moments. -/
theorem foldl_perform_append (ms w : List Moment) :
    ms.foldl (perform (fun p d w => w ++ [.enter p d]) fun p d w => w ++ [.leave p d]) w =
      w ++ ms := by
  induction ms generalizing w with
  | nil => rw [List.foldl_nil, List.append_nil]
  | cons m ms ih => cases m <;> simp [perform, ih]

/-- **A fold does its work along the walk.** -/
theorem foldAt_pruning (e : Expr) {α : Type} (prune : Address → Expr → Bool)
    (before after : Address → Expr → α → α) (a : α) :
    e.foldAt (pruning prune before after) a =
      (e.walk prune).foldl (perform before after) a := by
  induction e using children_induction generalizing α prune before after a with
  | node e ih =>
      have hwalk : e.walk prune = e.walkFrom prune := by
        rw [walk, foldAt_walkFrom ih, foldl_perform_append, List.nil_append]
      rw [foldAt_walkFrom ih, hwalk]

/-- **The walk, from the root down.** -/
theorem walk_eq (prune : Address → Expr → Bool) (e : Expr) : e.walk prune = e.walkFrom prune := by
  rw [walk, foldAt_walkFrom fun c _ => foldAt_pruning c, foldl_perform_append, List.nil_append]

/-! Which moments there are -/

theorem mem_walkBelow_iff :
    m ∈ e.walkBelow prune ↔ ∃ (i : Nat) (c : Expr), e.children[i]? = some c ∧
      ∃ n ∈ c.walk (fun p => prune (i :: p)), n.under i = m := by
  simp only [walkBelow, List.mem_flatMap, List.mem_map, Prod.exists, List.mem_zipIdx_iff_getElem?]
  exact exists_comm

/-- The moments of the root are its own. -/
theorem address_ne_nil_of_mem_walkBelow (h : m ∈ e.walkBelow prune) : m.address ≠ [] := by
  obtain ⟨i, c, -, n, -, rfl⟩ := mem_walkBelow_iff.mp h
  rw [address_under]
  exact List.cons_ne_nil i n.address

theorem mem_walk_iff :
    m ∈ e.walk prune ↔ m = .enter [] e ∨ prune [] e = false ∧
      (m ∈ e.walkBelow prune ∨ m = .leave [] e) := by
  rw [walk_eq, walkFrom, List.mem_cons]
  cases prune [] e <;> simp

theorem enter_nil_mem_walk_iff : .enter [] d ∈ e.walk prune ↔ e = d := by
  rw [mem_walk_iff]
  constructor
  · rintro (h | ⟨-, h | h⟩)
    · cases h
      rfl
    · exact absurd rfl (address_ne_nil_of_mem_walkBelow h)
    · cases h
  · rintro rfl
    exact .inl rfl

theorem leave_nil_mem_walk_iff : .leave [] d ∈ e.walk prune ↔ e = d ∧ prune [] e = false := by
  rw [mem_walk_iff]
  constructor
  · rintro (h | ⟨hprune, h | h⟩)
    · cases h
    · exact absurd rfl (address_ne_nil_of_mem_walkBelow h)
    · cases h
      exact ⟨rfl, hprune⟩
  · rintro ⟨rfl, hprune⟩
    exact .inr ⟨hprune, .inr rfl⟩

/-- **Moments below a child.**  They are those of the walk from the child, if the root is not pruned. -/
theorem under_mem_walk_iff {i : Nat} :
    m.under i ∈ e.walk prune ↔ prune [] e = false ∧ ∃ c, e.children[i]? = some c ∧
      m ∈ c.walk fun p => prune (i :: p) := by
  rw [mem_walk_iff, mem_walkBelow_iff]
  constructor
  · rintro (h | ⟨hprune, ⟨j, c, hc, n, hn, heq⟩ | h⟩)
    · exact absurd (congrArg address h) (address_under m i ▸ List.cons_ne_nil i m.address)
    · obtain ⟨rfl, rfl⟩ := under_eq_under_iff.mp heq
      exact ⟨hprune, c, hc, hn⟩
    · exact absurd (congrArg address h) (address_under m i ▸ List.cons_ne_nil i m.address)
  · rintro ⟨hprune, c, hc, hm⟩
    exact .inr ⟨hprune, .inl ⟨i, c, hc, m, hm, rfl⟩⟩

/-- The node stands at the address, and no node that is pruned stands above it. -/
def Reaches (prune : Address → Expr → Bool) (e : Expr) (p : Address) (d : Expr) : Prop :=
  e.at? p = some d ∧ ∀ q c, Above q p → e.at? q = some c → prune q c = false

theorem reaches_nil : e.Reaches prune [] d ↔ e = d := by
  rw [Reaches, at?_nil, Option.some.injEq, and_iff_left_iff_imp]
  rintro - q c ⟨hle, hne⟩
  exact absurd (List.prefix_nil.mp hle) hne

theorem reaches_cons {i : Nat} :
    e.Reaches prune (i :: p) d ↔ prune [] e = false ∧ ∃ c, e.children[i]? = some c ∧
      c.Reaches (fun q => prune (i :: q)) p d := by
  constructor
  · rintro ⟨hat, hprune⟩
    obtain ⟨c, hc, hcp⟩ := Option.bind_eq_some_iff.mp hat
    refine ⟨hprune [] e (above_nil i p) rfl, c, hc, hcp, fun q b hq hb => ?_⟩
    exact hprune (i :: q) b (above_cons_iff.mpr hq) (by rw [at?_cons, hc]; exact hb)
  · rintro ⟨hroot, c, hc, hcp, hprune⟩
    refine ⟨by rw [at?_cons, hc]; exact hcp, fun q b hq hb => ?_⟩
    cases q with
    | nil => exact Option.some.inj hb ▸ hroot
    | cons j q =>
        obtain ⟨rfl, -⟩ := List.cons_prefix_cons.mp hq.1
        rw [at?_cons, hc] at hb
        exact hprune q b (above_cons_iff.mp hq) hb

/-- **Which nodes are entered.**  Those that stand below no node that is pruned. -/
theorem enter_mem_walk_iff : .enter p d ∈ e.walk prune ↔ e.Reaches prune p d := by
  induction p generalizing e prune with
  | nil => rw [enter_nil_mem_walk_iff, reaches_nil]
  | cons i p ih =>
      change (enter p d).under i ∈ e.walk prune ↔ _
      rw [under_mem_walk_iff, reaches_cons]
      simp only [ih]

/-- **Which nodes are left.**  Those that are entered and not pruned. -/
theorem leave_mem_walk_iff :
    .leave p d ∈ e.walk prune ↔ e.Reaches prune p d ∧ prune p d = false := by
  induction p generalizing e prune with
  | nil =>
      rw [leave_nil_mem_walk_iff, reaches_nil]
      refine and_congr_right ?_
      rintro rfl
      rfl
  | cons i p ih =>
      change (leave p d).under i ∈ e.walk prune ↔ _
      rw [under_mem_walk_iff, reaches_cons]
      simp only [ih]
      constructor
      · rintro ⟨hroot, c, hc, hreaches, hprune⟩
        exact ⟨⟨hroot, c, hc, hreaches⟩, hprune⟩
      · rintro ⟨⟨hroot, c, hc, hreaches⟩, hprune⟩
        exact ⟨hroot, c, hc, hreaches, hprune⟩

/-! In which order they come -/

/-- **The order of a walk.** -/
theorem pairwise_before_walk (prune : Address → Expr → Bool) (e : Expr) :
    (e.walk prune).Pairwise Before := by
  induction e using children_induction generalizing prune with
  | node e ih =>
      have hbelow : (e.walkBelow prune).Pairwise Before := by
        rw [walkBelow, List.pairwise_flatMap]
        constructor
        · intro ci hci
          refine List.pairwise_map.mpr ?_
          exact (ih ci.1 (List.fst_mem_of_mem_zipIdx hci) _).imp before_under_iff.mpr
        · have hindex : (e.children.zipIdx.map Prod.snd).Pairwise (· < ·) := by
            rw [List.zipIdx_map_snd]
            exact List.pairwise_lt_range'
          refine (List.pairwise_map.mp hindex).imp fun {ci dj} hlt m hm n hn => ?_
          obtain ⟨m, -, rfl⟩ := List.mem_map.mp hm
          obtain ⟨n, -, rfl⟩ := List.mem_map.mp hn
          exact before_of_lt hlt m n
      have hall : (e.walkBelow prune ++ [Moment.leave [] e]).Pairwise Before := by
        refine List.pairwise_append.mpr ⟨hbelow, List.pairwise_singleton _ _, fun m hm n hn => ?_⟩
        obtain ⟨i, c, -, m, -, rfl⟩ := mem_walkBelow_iff.mp hm
        obtain rfl := List.mem_singleton.mp hn
        exact under_before_leave e m i
      rw [walk_eq, walkFrom]
      by_cases hprune : prune [] e = true
      · rw [if_pos hprune]
        exact List.pairwise_singleton _ _
      · rw [if_neg hprune]
        refine List.pairwise_cons.mpr ⟨fun m hm => ?_, hall⟩
        rcases List.mem_append.mp hm with hm | hm
        · obtain ⟨i, c, -, m, -, rfl⟩ := mem_walkBelow_iff.mp hm
          exact enter_before_under e m i
        · obtain rfl := List.mem_singleton.mp hm
          exact not_leftOf_self []

variable {earlier between later : List Moment}

/-- **Between entering a node and leaving it** the nodes below it are entered and no others. -/
theorem enter_mem_between_iff
    (h : e.walk prune = earlier ++ .enter p d :: (between ++ .leave p d :: later)) :
    .enter q c ∈ between ↔ .enter q c ∈ e.walk prune ∧ Above p q := by
  have horder := pairwise_before_walk prune e
  rw [h, List.pairwise_append, List.pairwise_cons, List.pairwise_append, List.pairwise_cons] at horder
  obtain ⟨-, ⟨hentered, -, ⟨hleft, -⟩, hbetween⟩, hearlier⟩ := horder
  constructor
  · intro hq
    have hpre : PreOrder p q := hentered (.enter q c) (List.mem_append_left _ hq)
    have hnot : ¬ LeftOf p q := hbetween (.enter q c) hq (.leave p d) List.mem_cons_self
    refine ⟨?_, hpre.resolve_right hnot⟩
    rw [h]
    exact List.mem_append_right _ (List.mem_cons_of_mem _ (List.mem_append_left _ hq))
  · rintro ⟨hq, habove⟩
    rw [h, List.mem_append, List.mem_cons, List.mem_append, List.mem_cons] at hq
    rcases hq with hq | heq | hq | heq | hq
    · have hpre : PreOrder q p := hearlier (.enter q c) hq (.enter p d) List.mem_cons_self
      rcases hpre with hqp | hqp
      · exact absurd (habove.1.eq_of_length_le hqp.1.length_le) habove.2
      · exact absurd hqp (not_leftOf_above habove.1)
    · cases heq
      exact absurd rfl habove.2
    · exact hq
    · cases heq
    · have hqp : LeftOf p q := hleft (.enter q c) hq
      exact absurd hqp (not_leftOf_below habove.1)

/-- A node that is left has been entered before. -/
theorem exists_between (h : .leave p d ∈ e.walk prune) :
    ∃ earlier between later : List Moment,
      e.walk prune = earlier ++ .enter p d :: (between ++ .leave p d :: later) := by
  have henter : .enter p d ∈ e.walk prune :=
    enter_mem_walk_iff.mpr (leave_mem_walk_iff.mp h).1
  obtain ⟨earlier, rest, hsplit⟩ := List.append_of_mem henter
  have horder := pairwise_before_walk prune e
  rw [hsplit, List.pairwise_append] at horder
  rw [hsplit, List.mem_append, List.mem_cons] at h
  rcases h with h | heq | h
  · have hself : LeftOf p p := horder.2.2 (.leave p d) h (.enter p d) List.mem_cons_self
    exact absurd hself (not_leftOf_self p)
  · cases heq
  · obtain ⟨between, later, rfl⟩ := List.append_of_mem h
    exact ⟨earlier, between, later, hsplit⟩

end Expr
end QueryTyping
