import Mathlib.Data.List.Perm.Subperm
import QueryTyping.Proofs.Reading.Idless

/-!
# Ids that are drawn while reading

A text that gives no ids is read with fresh ones only: they are distinct, and they lie between the
next fresh id before and the one after.

Main statements: `build_ids` says that a node has the ids of its parts and its own, and
`ofJson_drawn` and `Document.ofJson_drawn` that what is read from a text without ids has drawn its
own.
-/

namespace QueryTyping

open Draw

/-- Distinct ids that lie from `start` on and before `stop`. -/
structure Drawn (start stop : Nat) (ids : List Nat) : Prop where
  le : start ≤ stop
  nodup : ids.Nodup
  range : ∀ i ∈ ids, start ≤ i ∧ i < stop

namespace Drawn

variable {start middle stop : Nat} {is js : List Nat}

theorem nil (start : Nat) : Drawn start start [] :=
  ⟨Nat.le_refl start, List.nodup_nil, fun _ hi => by cases hi⟩

theorem append (h : Drawn start middle is) (h' : Drawn middle stop js) :
    Drawn start stop (is ++ js) where
  le := Nat.le_trans h.le h'.le
  nodup := by
    refine List.nodup_append.mpr ⟨h.nodup, h'.nodup, fun i hi j hj => ?_⟩
    have hi' := (h.range i hi).2
    have hj' := (h'.range j hj).1
    omega
  range i hi := by
    have hle := h.le
    have hle' := h'.le
    rcases List.mem_append.mp hi with hi | hi
    · have hi' := h.range i hi
      omega
    · have hi' := h'.range i hi
      omega

/-- The next id is drawn. -/
theorem cons (h : Drawn start stop is) : Drawn start (stop + 1) (stop :: is) where
  le := Nat.le_succ_of_le h.le
  nodup := List.nodup_cons.mpr ⟨fun hi => Nat.lt_irrefl stop (h.range stop hi).2, h.nodup⟩
  range i hi := by
    rcases List.mem_cons.mp hi with rfl | hi
    · exact ⟨h.le, Nat.lt_succ_self i⟩
    · exact ⟨(h.range i hi).1, Nat.lt_succ_of_lt (h.range i hi).2⟩

theorem subperm (h : Drawn start stop is) (hsub : js.Subperm is) : Drawn start stop js where
  le := h.le
  nodup := by
    obtain ⟨ks, hperm, hks⟩ := hsub
    exact hperm.nodup_iff.mp (h.nodup.sublist hks)
  range i hi := h.range i (hsub.subset hi)

end Drawn

/-- The ids in a part of a node. -/
def Part.ids : Part → List NodeId
  | .binding b => [b.id]
  | .expr e => e.ids
  | .exprs es => es.flatMap Expr.ids
  | _ => []

namespace Parts

variable {ps : Parts} {key : String}

/-- The ids in the parts of a node. -/
def ids (ps : Parts) : List NodeId := ps.flatMap fun p => p.2.ids

/-- The ids in the part of a field. -/
def idsOf (ps : Parts) (key : String) : List NodeId := ((ps.lookup key).map Part.ids).getD []

theorem idsOf_cons (p : String × Part) (ps : Parts) (key : String) :
    idsOf (p :: ps) key = if key == p.1 then p.2.ids else ps.idsOf key := by
  rw [idsOf, List.lookup_cons]
  cases key == p.1 <;> rfl

/-- Different fields have different parts. -/
theorem idsOf_subperm (ps : Parts) {keys : List String} (hkeys : keys.Nodup) :
    (keys.flatMap ps.idsOf).Subperm ps.ids := by
  induction ps generalizing keys with
  | nil =>
      have hnil : keys.flatMap (idsOf []) = [] := List.flatMap_eq_nil_iff.mpr fun _ _ => rfl
      rw [hnil]
      exact List.nil_subperm
  | cons p ps ih =>
      have hrest : ∀ keys : List String, p.1 ∉ keys →
          keys.flatMap (idsOf (p :: ps)) = keys.flatMap (idsOf ps) := by
        intro keys hp
        refine List.flatMap_congr fun key hkey => ?_
        have hne : (key == p.1) = false := by
          simpa using fun heq : key = p.1 => hp (heq ▸ hkey)
        rw [idsOf_cons, hne, if_neg Bool.false_ne_true]
      by_cases hp : p.1 ∈ keys
      · have hperm := List.perm_cons_erase hp
        have hnodup := hperm.nodup_iff.mp hkeys
        have hsplit : (keys.flatMap (idsOf (p :: ps))).Perm
            (p.2.ids ++ (keys.erase p.1).flatMap (idsOf ps)) := by
          refine (hperm.flatMap_right _).trans ?_
          rw [List.flatMap_cons, hrest _ (List.nodup_cons.mp hnodup).1, idsOf_cons,
            beq_self_eq_true, if_pos rfl]
        exact hsplit.subperm.trans
          ((List.subperm_append_left _).mpr (ih (List.nodup_cons.mp hnodup).2))
      · rw [hrest keys hp]
        exact (ih hkeys).trans (List.sublist_append_right _ _).subperm

theorem idsOf_expr {e : Expr} (h : ps.expr? key = some e) : ps.idsOf key = e.ids := by
  unfold expr? at h
  split at h
  · rename_i hlookup
    cases h
    rw [idsOf, hlookup]
    rfl
  · cases h

theorem idsOf_exprs {es : List Expr} (h : ps.exprs? key = some es) :
    ps.idsOf key = es.flatMap Expr.ids := by
  unfold exprs? at h
  split at h
  · rename_i hlookup
    cases h
    rw [idsOf, hlookup]
    rfl
  · cases h

theorem idsOf_binding {b : Binding} (h : ps.binding? = some b) : ps.idsOf "variable" = [b.id] := by
  unfold binding? at h
  split at h
  · rename_i hlookup
    cases h
    rw [idsOf, hlookup]
    rfl
  · cases h

theorem idsOf_optionalExpr (ps : Parts) (key : String) :
    ((ps.optionalExpr key).toList.flatMap Expr.ids).Sublist (ps.idsOf key) := by
  cases h : ps.optionalExpr key with
  | none => exact List.nil_sublist _
  | some e =>
      rw [idsOf_expr h]
      simp

/-- **The ids of a node** are its own and some of its parts'. -/
theorem build_ids {n : Node} {k : Kind} {e : Expr} (h : ps.build? n k = some e) :
    e.ids.Subperm (n.id :: ps.ids) := by
  -- which fields hold ids depends on the kind
  have hfields : ∀ keys : List String, keys.Nodup →
      ((e.bound?.map Binding.id).toList ++ e.children.flatMap Expr.ids).Sublist
        (keys.flatMap ps.idsOf) → e.id = n.id → e.ids.Subperm (n.id :: ps.ids) := by
    intro keys hkeys hsub hid
    rw [Expr.ids_eq_cons, hid]
    exact (List.subperm_cons n.id).mpr (hsub.subperm.trans (ps.idsOf_subperm hkeys))
  cases k <;>
    simp only [build?, Option.bind_eq_bind, Option.bind_eq_some_iff, Option.some.injEq] at h
  case integer | float | string | boolean | reference | parameter =>
    obtain ⟨v, -, rfl⟩ := h
    exact hfields [] List.nodup_nil (List.nil_sublist _) rfl
  case null | countStar =>
    subst h
    exact hfields [] List.nodup_nil (List.nil_sublist _) rfl
  case list =>
    obtain ⟨es, hes, rfl⟩ := h
    exact hfields ["items"] (by decide) (by simp [Expr.bound?, Expr.children, idsOf_exprs hes]) rfl
  case call =>
    obtain ⟨name, -, es, hes, rfl⟩ := h
    exact hfields ["args"] (by decide) (by simp [Expr.bound?, Expr.children, idsOf_exprs hes]) rfl
  case property =>
    obtain ⟨m, hm, key, -, rfl⟩ := h
    exact hfields ["map"] (by decide) (by simp [Expr.bound?, Expr.children, idsOf_expr hm]) rfl
  case unaryBefore | unaryAfter =>
    obtain ⟨op, -, d, hd, rfl⟩ := h
    exact hfields ["operand"] (by decide) (by simp [Expr.bound?, Expr.children, idsOf_expr hd]) rfl
  case binary =>
    obtain ⟨op, -, l, hl, r, hr, rfl⟩ := h
    exact hfields ["lhs", "rhs"] (by decide)
      (by simp [Expr.bound?, Expr.children, idsOf_expr hl, idsOf_expr hr]) rfl
  case comprehension =>
    obtain ⟨b, hb, l, hl, rfl⟩ := h
    have hp := ps.idsOf_optionalExpr "predicate"
    have hq := ps.idsOf_optionalExpr "projection"
    exact hfields ["variable", "list", "predicate", "projection"] (by decide)
      (by simpa [Expr.bound?, Expr.children, idsOf_binding hb, idsOf_expr hl] using hp.append hq) rfl
  case quantified =>
    obtain ⟨q, -, b, hb, l, hl, rfl⟩ := h
    have hp := ps.idsOf_optionalExpr "predicate"
    exact hfields ["variable", "list", "predicate"] (by decide)
      (by simpa [Expr.bound?, Expr.children, idsOf_binding hb, idsOf_expr hl] using hp) rfl

end Parts

namespace Draw

variable {α β : Type}

/-- Whatever is read has drawn all of its ids. -/
def Draws (ids : α → List NodeId) (a : Draw α) : Prop :=
  ∀ start x stop, a start = some (x, stop) → Drawn start stop (ids x)

theorem Draws.map {A : α → List NodeId} {B : β → List NodeId} {a : Draw α} {f : α → β}
    (ha : a.Draws A) (h : ∀ x, B (f x) = A x) : (f <$> a).Draws B := by
  intro start y stop hy
  rw [map_eq_pure_bind] at hy
  obtain ⟨x, middle, hx, hy⟩ := bind_eq_some hy
  cases hy
  rw [h]
  exact ha start x _ hx

/-- Without drawing, nothing with ids is read. -/
theorem Draws.lift {A : α → List NodeId} {o : Option α} (h : ∀ x, o = some x → A x = []) :
    Draws A (liftM o) := by
  intro start x stop hx
  rw [lift_eq] at hx
  obtain ⟨x, ho, hx⟩ := Option.map_eq_some_iff.mp hx
  cases hx
  rw [h x ho]
  exact .nil start

end Draw

open Json

/-- A binding without a given id draws the next one. -/
theorem Binding.ofJson_drawn {v : Json} (h : Idless .binding v) :
    (Binding.ofJson v).Draws fun b => [b.id] := by
  intro start b stop hb
  obtain ⟨l, hl, hb⟩ := lift_bind_eq_some hb
  split at hb
  · cases record_idless_binding h hl
    dsimp only at hb
    obtain ⟨given, first, hgiven, hb⟩ := bind_eq_some hb
    cases hgiven
    obtain ⟨span, hspan, hb⟩ := lift_bind_eq_some hb
    obtain ⟨name, hname, hb⟩ := lift_bind_eq_some hb
    cases hb
    exact (Drawn.nil start).cons
  · cases hb

theorem ids_readPlain {v : Json} {slot : Slot} {p : Part} (h : readPlain? v slot = some p) :
    p.ids = [] := by
  cases slot with
  | id | span | text =>
      obtain ⟨x, -, hx⟩ := Option.bind_eq_some_iff.mp h
      cases hx
      rfl
  | unary _ | binary | quantifier =>
      obtain ⟨name, -, h⟩ := Option.bind_eq_some_iff.mp h
      obtain ⟨x, -, hx⟩ := Option.bind_eq_some_iff.mp h
      cases hx
      rfl
  | integer =>
      simp only [readPlain?] at h
      split at h
      · split at h <;> cases h
        rfl
      · cases h
  | float | flag =>
      simp only [readPlain?] at h
      split at h <;> cases h <;> rfl
  | binding | expr | optionalExpr | exprs => cases h

/-- The field of a node draws the ids in it, if the expressions in it do. -/
theorem readPart_drawn {slot : Slot} {v : Json} {one : Draw Expr} {many : Draw (List Expr)}
    (h : Idless slot.role v) (hone : slot.role = .node → one.Draws Expr.ids)
    (hmany : slot.role = .nodes → many.Draws (·.flatMap Expr.ids)) :
    (readPart v one many slot).Draws Part.ids := by
  have hplain : Draws Part.ids (liftM (readPlain? v slot)) := Draws.lift fun p => ids_readPlain
  cases slot with
  | binding => exact (Binding.ofJson_drawn h).map fun _ => rfl
  | expr => exact (hone rfl).map fun _ => rfl
  | optionalExpr =>
      by_cases hv : v = .null
      · subst hv
        intro start p stop hp
        cases hp
        exact .nil start
      · rw [readPart]
        · exact (hone rfl).map fun _ => rfl
        · exact hv
  | exprs => exact (hmany rfl).map fun _ => rfl
  | _ => exact hplain

/-- A node without a given id draws its id last. -/
theorem Parts.assemble_drawn {ps : Parts} {k : Kind} {start middle stop : NodeId} {e : Expr}
    (hdrawn : Drawn start middle ps.ids) (hid : ps.lookup "id" = none)
    (h : ps.assemble k middle = some (e, stop)) : Drawn start stop e.ids := by
  have hgiven : ps.id? = none := by rw [id?, hid]
  unfold Parts.assemble at h
  rw [hgiven] at h
  obtain ⟨i, next, hi, h⟩ := bind_eq_some h
  cases hi
  rw [lift_eq] at h
  obtain ⟨e, hbuild, he⟩ := Option.map_eq_some_iff.mp h
  cases he
  exact hdrawn.cons.subperm (build_ids hbuild)

mutual

/-- **An expression whose text gives no ids has drawn its own.** -/
theorem ofJson_drawn (inner : Bool) (v : Json) (h : Idless .node v) :
    (Expr.ofJson inner v).Draws Expr.ids := by
  intro start e stop he
  cases v with
  | object fs =>
      rw [Expr.ofJson] at he
      obtain ⟨k, hk, he⟩ := lift_bind_eq_some he
      obtain ⟨ps, middle, hps, he⟩ := bind_eq_some he
      obtain ⟨hdrawn, hid⟩ :=
        readFields_drawn k fs (h.fields (ofFields_inner hk)) start ps middle hps
      exact Parts.assemble_drawn hdrawn hid he
  | array items =>
      cases items with
      | nil => cases he
      | cons tag vs =>
          rw [Expr.ofJson] at he
          obtain ⟨k, hk, he⟩ := lift_bind_eq_some he
          obtain ⟨ps, middle, hps, he⟩ := bind_eq_some he
          cases h.items (ofTag_inner hk)
          cases hps
          exact Parts.assemble_drawn (.nil start) rfl he
  | _ => cases he
termination_by sizeOf v

/-- The fields of an object draw their ids one after the other. -/
theorem readFields_drawn (k : Kind) (fs : List (String × Json)) (h : IdlessFields k.roles fs)
    (start : NodeId) (ps : Parts) (stop : NodeId) (hps : readFields k fs start = some (ps, stop)) :
    Drawn start stop ps.ids ∧ ps.lookup "id" = none := by
  match fs, h with
  | [], _ => cases hps; exact ⟨.nil start, rfl⟩
  | (key, v) :: fs, h =>
      obtain ⟨hkey, hv⟩ := h.head
      rw [readFields] at hps
      rw [roleOf_roles] at hv
      cases hslot : k.slot? key with
      | none =>
          rw [hslot] at hps
          exact readFields_drawn k fs h.tail start ps stop hps
      | some slot =>
          rw [hslot] at hps hv
          obtain ⟨p, middle, hp, hps⟩ := bind_eq_some hps
          obtain ⟨qs, last, hqs, hps⟩ := bind_eq_some hps
          have hpart : Drawn start middle p.ids := readPart_drawn hv
            (fun hrole => ofJson_drawn true v (hrole ▸ hv))
            (fun hrole => exprsOfJson_drawn v (hrole ▸ hv)) start p middle hp
          obtain ⟨hrest, hid⟩ := readFields_drawn k fs h.tail middle qs last hqs
          split at hps
          · cases hps
          · cases hps
            refine ⟨hpart.append hrest, ?_⟩
            have hne : ("id" == key) = false := by simpa using Ne.symm hkey
            rw [List.lookup_cons, hne]
            exact hid
termination_by sizeOf fs

/-- A list of nodes inside another one draws its ids. -/
theorem exprsOfJson_drawn (v : Json) (h : Idless .nodes v) :
    (exprsOfJson v).Draws (·.flatMap Expr.ids) := by
  intro start es stop hes
  cases v with
  | array vs => exact innerExprs_drawn vs h.nodes start es stop hes
  | _ => cases hes
termination_by sizeOf v

/-- Nodes inside another one draw their ids one after the other. -/
theorem innerExprs_drawn (vs : List Json) (h : IdlessItems (vs.map fun _ => .node) vs) :
    (innerExprs vs).Draws (·.flatMap Expr.ids) := by
  intro start es stop hes
  cases vs with
  | nil => cases hes; exact .nil start
  | cons v vs =>
      rw [innerExprs] at hes
      obtain ⟨e, middle, he, hes⟩ := bind_eq_some hes
      obtain ⟨ds, last, hds, hes⟩ := bind_eq_some hes
      cases hes
      have hhead := ofJson_drawn true v h.head start e middle he
      exact hhead.append (innerExprs_drawn vs h.tail middle ds _ hds)
termination_by sizeOf vs

end

namespace Document

/-- Expressions draw their ids one after the other. -/
theorem expressionsOf_drawn {vs : List Json} (h : IdlessItems (vs.map fun _ => .node) vs) :
    (expressionsOf vs).Draws (·.flatMap Expr.ids) := by
  induction vs with
  | nil => intro start es stop hes; cases hes; exact .nil start
  | cons v vs ih =>
      intro start es stop hes
      rw [expressionsOf] at hes
      obtain ⟨e, middle, he, hes⟩ := bind_eq_some hes
      obtain ⟨ds, last, hds, hes⟩ := bind_eq_some hes
      cases hes
      have hhead := QueryTyping.ofJson_drawn false v h.head start e middle he
      exact hhead.append (ih h.tail middle ds _ hds)

/-- **A document whose text gives no ids has drawn its own**, for all expressions together. -/
theorem ofJson_drawn {v : Json} (h : Idless .document v) :
    (ofJson v).Draws fun d => d.expressions.flatMap Expr.ids := by
  intro start d stop hd
  obtain ⟨l, hl, hd⟩ := lift_bind_eq_some hd
  split at hd
  · obtain ⟨source, -, hd⟩ := lift_bind_eq_some hd
    obtain ⟨declared, -, hd⟩ := lift_bind_eq_some hd
    obtain ⟨es, last, hes, hd⟩ := bind_eq_some hd
    cases hd
    have hdrawn := expressionsOf_drawn (record_idless_document h hl) start es _ hes
    have hsame : es.map (fun e => e.distinct.1) = es := by
      refine (List.map_congr_left fun e he => ?_).trans (List.map_id es)
      have hnodup : e.ids.Nodup := (List.nodup_flatMap.mp hdrawn.nodup).1 e he
      rw [e.distinct_of_nodup hnodup]
      rfl
    rw [hsame]
    exact hdrawn
  · cases hd

end Document

end QueryTyping
