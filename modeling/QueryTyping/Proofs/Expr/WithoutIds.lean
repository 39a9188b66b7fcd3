import QueryTyping.Expr.Numbering
import QueryTyping.Proofs.Expr.Place

/-!
# Trees without their ids

Two trees are equal but for their ids if they become equal when every id is replaced by zero.

Main statements: `withoutIds_renumber` says that numbering a tree anew changes nothing but ids, and
`dependencies_withoutIds` that the names an expression reads have nothing to do with them.
-/

namespace QueryTyping

/-- The node with the id zero. -/
def Node.withoutId (n : Node) : Node := { n with id := 0 }

/-- The binding with the id zero. -/
def Binding.withoutId (b : Binding) : Binding := { b with id := 0 }

mutual

/-- The tree with zero for every id. -/
def Expr.withoutIds : Expr → Expr
  | .literal n v => .literal n.withoutId v
  | .reference n x => .reference n.withoutId x
  | .parameter n x => .parameter n.withoutId x
  | .countStar n => .countStar n.withoutId
  | .list n es => .list n.withoutId (withoutIdsAll es)
  | .property n m k => .property n.withoutId m.withoutIds k
  | .unary n op e => .unary n.withoutId op e.withoutIds
  | .binary n op l r => .binary n.withoutId op l.withoutIds r.withoutIds
  | .call n f d es => .call n.withoutId f d (withoutIdsAll es)
  | .comprehension n b s p q =>
      .comprehension n.withoutId b.withoutId s.withoutIds (withoutIdsOption p) (withoutIdsOption q)
  | .quantified n k b s p =>
      .quantified n.withoutId k b.withoutId s.withoutIds (withoutIdsOption p)

/-- Trees in a row with zero for every id. -/
def withoutIdsAll : List Expr → List Expr
  | [] => []
  | e :: es => e.withoutIds :: withoutIdsAll es

/-- A tree that may be missing with zero for every id. -/
def withoutIdsOption : Option Expr → Option Expr
  | none => none
  | some e => some e.withoutIds

end

theorem withoutIdsAll_eq (es : List Expr) : withoutIdsAll es = es.map Expr.withoutIds := by
  induction es with
  | nil => rw [withoutIdsAll, List.map_nil]
  | cons e es ih => rw [withoutIdsAll, ih, List.map_cons]

theorem withoutIdsOption_eq (p : Option Expr) : withoutIdsOption p = p.map Expr.withoutIds := by
  cases p <;> rw [withoutIdsOption] <;> rfl

@[simp] theorem Node.withoutId_setId (n : Node) (i : NodeId) :
    ({ n with id := i } : Node).withoutId = n.withoutId := rfl

@[simp] theorem Binding.withoutId_setId (b : Binding) (i : NodeId) :
    ({ b with id := i } : Binding).withoutId = b.withoutId := rfl

namespace Expr

/-- Numbering trees in a row keeps all but their ids if it does so for each of them. -/
theorem withoutIds_renumberAll {es : List Expr}
    (ih : ∀ e ∈ es, ∀ next, (e.renumber next).1.withoutIds = e.withoutIds) (next : NodeId) :
    withoutIdsAll (renumberAll es next).1 = withoutIdsAll es := by
  induction es generalizing next with
  | nil => rw [renumberAll]
  | cons e es ihs =>
      have he := ih e List.mem_cons_self next
      have hes := ihs fun d hd => ih d (List.mem_cons_of_mem _ hd)
      simp only [renumberAll, withoutIdsAll, he, hes]

/-- The same for a tree that may be missing. -/
theorem withoutIds_renumberOption {p : Option Expr}
    (ih : ∀ e ∈ p.toList, ∀ next, (e.renumber next).1.withoutIds = e.withoutIds) (next : NodeId) :
    withoutIdsOption (renumberOption p next).1 = withoutIdsOption p := by
  cases p with
  | none => rw [renumberOption]
  | some e => simp only [renumberOption, withoutIdsOption, ih e (by simp)]

/-- **Numbering a tree anew changes nothing but ids.** -/
theorem withoutIds_renumber (e : Expr) (next : NodeId) :
    (e.renumber next).1.withoutIds = e.withoutIds := by
  induction e using children_induction generalizing next with
  | node e ih =>
      cases e with
      | list n es =>
          have hes : ∀ next, withoutIdsAll (renumberAll es next).1 = withoutIdsAll es :=
            withoutIds_renumberAll ih
          simp only [renumber, withoutIds, hes, Node.withoutId_setId]
      | call n f d es =>
          have hes : ∀ next, withoutIdsAll (renumberAll es next).1 = withoutIdsAll es :=
            withoutIds_renumberAll ih
          simp only [renumber, withoutIds, hes, Node.withoutId_setId]
      | property n m k =>
          have hm := ih m (by simp [children])
          simp only [renumber, withoutIds, hm, Node.withoutId_setId]
      | unary n op e =>
          have he := ih e (by simp [children])
          simp only [renumber, withoutIds, he, Node.withoutId_setId]
      | binary n op l r =>
          have hl := ih l (by simp [children])
          have hr := ih r (by simp [children])
          simp only [renumber, withoutIds, hl, hr, Node.withoutId_setId]
      | comprehension n b s p q =>
          have hs := ih s (by simp [children])
          have hp := fun next => withoutIds_renumberOption (p := p)
            (fun e he => ih e (List.mem_cons_of_mem _ (List.mem_append_left _ he))) next
          have hq := fun next => withoutIds_renumberOption (p := q)
            (fun e he => ih e (List.mem_cons_of_mem _ (List.mem_append_right _ he))) next
          simp only [renumber, withoutIds, hs, hp, hq, Node.withoutId_setId, Binding.withoutId_setId]
      | quantified n k b s p =>
          have hs := ih s (by simp [children])
          have hp := fun next => withoutIds_renumberOption (p := p)
            (fun e he => ih e (List.mem_cons_of_mem _ he)) next
          simp only [renumber, withoutIds, hs, hp, Node.withoutId_setId, Binding.withoutId_setId]
      | _ => simp only [renumber, withoutIds, Node.withoutId_setId]

/-- Making the ids of a tree distinct changes nothing but ids. -/
theorem withoutIds_distinct (e : Expr) : e.distinct.1.withoutIds = e.withoutIds := by
  rw [distinct]
  split
  · rfl
  · exact withoutIds_renumber e 1

/-- A scan does not look at ids. -/
theorem scan_withoutIds (e : Expr) (a : Scan) : e.withoutIds.scan a = e.scan a := by
  induction e using children_induction generalizing a with
  | node e ih =>
      have hall : ∀ es : List Expr, (∀ c ∈ es, c ∈ e.children) → ∀ a,
          scanAll (withoutIdsAll es) a = scanAll es a := by
        intro es
        induction es with
        | nil => intro _ a; rw [withoutIdsAll]
        | cons c es ihs =>
            intro hes a
            have hrest := ihs fun d hd => hes d (List.mem_cons_of_mem _ hd)
            rw [withoutIdsAll, scanAll, scanAll, ih c (hes c List.mem_cons_self), hrest]
      have hmaybe : ∀ p : Option Expr, (∀ c ∈ p.toList, c ∈ e.children) → ∀ a,
          scanOption (withoutIdsOption p) a = scanOption p a := by
        intro p hp a
        cases p with
        | none => rw [withoutIdsOption]
        | some c => rw [withoutIdsOption, scanOption, scanOption, ih c (hp c (by simp))]
      cases e with
      | list n es => rw [withoutIds, scan, scan, hall es fun _ h => h]
      | call n f d es => rw [withoutIds, scan, scan, hall es fun _ h => h]
      | property n m k => rw [withoutIds, scan, scan, ih m (by simp [children])]
      | unary n op e => rw [withoutIds, scan, scan, ih e (by simp [children])]
      | binary n op l r =>
          rw [withoutIds, scan, scan, ih l (by simp [children]), ih r (by simp [children])]
      | comprehension n b s p q =>
          rw [withoutIds, scan, scan, ih s (by simp [children]),
            hmaybe p fun c hc => List.mem_cons_of_mem _ (List.mem_append_left _ hc),
            hmaybe q fun c hc => List.mem_cons_of_mem _ (List.mem_append_right _ hc)]
          rfl
      | quantified n k b s p =>
          rw [withoutIds, scan, scan, ih s (by simp [children]),
            hmaybe p fun c hc => List.mem_cons_of_mem _ hc]
          rfl
      | _ => rw [withoutIds, scan, scan]

/-- **The names an expression reads have nothing to do with its ids.** -/
theorem dependencies_withoutIds (e : Expr) : e.withoutIds.dependencies = e.dependencies := by
  rw [dependencies, scan_withoutIds, dependencies]

end Expr
end QueryTyping
