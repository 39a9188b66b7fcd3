import QueryTyping.Proofs.Expr.Numbering
import QueryTyping.Proofs.Reading.Follows

/-!
# Reading documents with other ids

Whatever the ids in the text of a document are, and wherever the fresh ones start, the same document
is read up to the ids of its expressions.

Main statements: `readPart_follows` says so of the field of a node, `ofJson_follows` of an
expression, and `Document.ofJson_follows` of a document.
-/

namespace QueryTyping

open Draw Json

/-- The expressions are equal but for their ids. -/
abbrev Expr.Alike (e e' : Expr) : Prop := e'.withoutIds = e.withoutIds

/-- The expressions in two lists are equal but for their ids. -/
abbrev AlikeAll (es es' : List Expr) : Prop := withoutIdsAll es' = withoutIdsAll es

/-- What a field of a node stands for, found by its name. -/
theorem roleOf_roles (k : Kind) (key : String) :
    roleOf k.roles key = ((k.slot? key).map Slot.role).getD .other := by
  have hlookup : ∀ fs : List (String × Slot),
      (fs.map fun f => (f.1, f.2.role)).lookup key = (fs.lookup key).map Slot.role := by
    intro fs
    induction fs with
    | nil => rfl
    | cons f fs ih =>
        rw [List.map_cons, List.lookup_cons, List.lookup_cons, ih]
        split <;> rfl
  rw [roleOf, Kind.roles, Kind.slot?, hlookup]

/-- A kind that is named is also named inside another node. -/
theorem ofTag_inner {inner : Bool} {tag : Json} {k : Kind} (h : Kind.ofTag? inner tag = some k) :
    Kind.ofTag? true tag = some k := by
  unfold Kind.ofTag? at h ⊢
  cases tag with
  | string s => exact h
  | int n =>
      dsimp only at h ⊢
      split at h
      · rename_i hn
        rw [if_pos ⟨rfl, hn.2⟩]
        exact h
      · cases h
  | _ => cases h

theorem ofFields_inner {inner : Bool} {fs : List (String × Json)} {k : Kind}
    (h : Kind.ofFields? inner fs = some k) : Kind.ofFields? true fs = some k := by
  unfold Kind.ofFields? at h ⊢
  split at h
  · exact ofTag_inner h
  · cases h

/-- No node turns into `null`, and `null` into no node. -/
theorem eq_null_of_reid {v w : Json} (h : Reid .node v w) : v = .null ↔ w = .null := by
  cases h <;> simp

/-- A field that holds no expression is read alike. -/
theorem readPlain_follows {slot : Slot} {v w : Json} (h : Reid slot.role v w) :
    Follows (fun p q : Part => q.withoutIds = p.withoutIds) (liftM (readPlain? v slot))
      (liftM (readPlain? w slot)) := by
  refine .lift fun p hp => ?_
  by_cases hid : slot = .id
  · subst hid
    obtain ⟨n, hn, hpart⟩ := Option.bind_eq_some_iff.mp hp
    cases hpart
    obtain ⟨n', hn'⟩ := Option.isSome_iff_exists.mp (h.isSome_nat (by rw [hn]; rfl))
    exact ⟨.id n', by rw [readPlain?, hn']; rfl, rfl⟩
  · have hsame : slot.role = .other ∨ readPlain? v slot = none := by
      cases slot <;> first | exact absurd rfl hid | exact Or.inl rfl | exact Or.inr rfl
    rcases hsame with hother | hnone
    · rw [hother] at h
      rw [h.eq_of_other]
      exact ⟨p, hp, rfl⟩
    · rw [hnone] at hp
      cases hp

/-- **The field of a node is read alike**, if the expressions in it are. -/
theorem readPart_follows {slot : Slot} {v w : Json} (h : Reid slot.role v w) {one one' : Draw Expr}
    {many many' : Draw (List Expr)} (hone : slot.role = .node → Follows Expr.Alike one one')
    (hmany : slot.role = .nodes → Follows AlikeAll many many') :
    Follows (fun p q => q.withoutIds = p.withoutIds) (readPart v one many slot)
      (readPart w one' many' slot) := by
  have hexpr : slot.role = .node →
      Follows (fun p q => q.withoutIds = p.withoutIds) (Part.expr <$> one) (Part.expr <$> one') := by
    intro hnode
    refine (hone hnode).map fun e e' he => ?_
    rw [Part.withoutIds, Part.withoutIds, he]
  cases slot with
  | binding =>
      refine (Binding.ofJson_follows h).map fun b b' hb => ?_
      rw [Part.withoutIds, Part.withoutIds, hb]
  | expr => exact hexpr rfl
  | optionalExpr =>
      by_cases hv : v = .null
      · have hw : w = .null := (eq_null_of_reid h).mp hv
        subst hv
        subst hw
        exact .pure rfl
      · have hw : w ≠ .null := fun hw => hv ((eq_null_of_reid h).mpr hw)
        rw [readPart, readPart]
        · exact hexpr rfl
        · exact hw
        · exact hv
  | exprs =>
      refine (hmany rfl).map fun es es' hes => ?_
      rw [Part.withoutIds, Part.withoutIds, hes]
  | _ => exact readPlain_follows h

/-- An object that is a node stays one, with the fields of its kind. -/
theorem fields_of_reid {fs : List (String × Json)} {w : Json} (h : Reid .node (.object fs) w) :
    ∃ gs, w = .object gs ∧
      ∀ inner k, Kind.ofFields? inner fs = some k → ReidFields k.roles fs gs := by
  cases h with
  | same => exact ⟨fs, rfl, fun _ k _ => ReidFields.same k.roles fs⟩
  | @node kind _ gs hkind hfields =>
      refine ⟨gs, rfl, fun inner k hk => ?_⟩
      have hinner := ofFields_inner hk
      rw [hkind] at hinner
      cases hinner
      exact hfields

/-- An array that is a node stays one, with the items of its kind. -/
theorem items_of_reid {tag : Json} {vs : List Json} {w : Json}
    (h : Reid .node (.array (tag :: vs)) w) :
    ∃ ws, w = .array (tag :: ws) ∧
      ∀ inner k, Kind.ofTag? inner tag = some k → ReidItems (k.roles.map (·.2)) vs ws := by
  cases h with
  | same => exact ⟨vs, rfl, fun _ k _ => ReidItems.same _ vs⟩
  | @nodeItems kind _ _ ws hkind hitems =>
      refine ⟨ws, rfl, fun inner k hk => ?_⟩
      have hinner := ofTag_inner hk
      rw [hkind] at hinner
      cases hinner
      exact hitems

/-- A list of nodes stays one. -/
theorem nodes_of_reid {vs : List Json} {w : Json} (h : Reid .nodes (.array vs) w) :
    ∃ ws, w = .array ws ∧ ReidItems (vs.map fun _ => .node) vs ws := by
  cases h with
  | same => exact ⟨vs, rfl, ReidItems.same _ vs⟩
  | @nodes _ ws hitems => exact ⟨ws, rfl, hitems⟩

theorem Parts.Alike.refl (ps : Parts) : ps.Alike ps := ⟨fun _ _ => rfl, fun h => h⟩

mutual

/-- **An expression is read whatever the ids in its text are.** -/
theorem ofJson_follows (inner : Bool) (v : Json) {w : Json} (h : Reid .node v w) :
    Follows Expr.Alike (Expr.ofJson inner v) (Expr.ofJson inner w) := by
  cases v with
  | object fs =>
      obtain ⟨gs, rfl, hfields⟩ := fields_of_reid h
      rw [Expr.ofJson, Expr.ofJson]
      refine .lift_bind fun k start r hk _ => ⟨k, ofFields_reid (hfields inner k hk) hk, ?_⟩
      exact (readFields_follows k fs (hfields inner k hk)).bind fun ps qs halike =>
        halike.assemble k
  | array items =>
      cases items with
      | nil => intro start x stop hx; cases hx
      | cons tag vs =>
          obtain ⟨ws, rfl, hitems⟩ := items_of_reid h
          rw [Expr.ofJson, Expr.ofJson]
          refine .lift_bind fun k start r hk _ => ⟨k, hk, ?_⟩
          have hroles := hitems inner k hk
          rw [Kind.roles, List.map_map] at hroles
          exact (readItems_follows k.fields vs hroles).bind fun ps qs halike => halike.assemble k
  | _ => intro start x stop hx; cases hx
termination_by sizeOf v

/-- The fields of a node are read alike. -/
theorem readFields_follows (k : Kind) (fs : List (String × Json)) {gs : List (String × Json)}
    (h : ReidFields k.roles fs gs) :
    Follows Parts.Alike (readFields k fs) (readFields k gs) := by
  match fs, h with
  | [], h => cases h; exact .pure (.refl [])
  | (key, v) :: fs, h =>
      cases h with
      | @cons _ _ _ w _ gs hv hrest =>
          have htail := readFields_follows k fs hrest
          rw [readFields, readFields]
          rw [roleOf_roles] at hv
          cases hslot : k.slot? key with
          | none => exact htail
          | some slot =>
              rw [hslot] at hv
              dsimp only
              refine (readPart_follows hv
                (fun hrole => ofJson_follows true v (hrole ▸ hv))
                (fun hrole => exprsOfJson_follows v (hrole ▸ hv))).bind fun p q hpart => ?_
              refine htail.bind fun ps qs halike => ?_
              split
              · intro start x stop hx
                cases hx
              · rename_i hfirst
                rw [if_neg fun hdup => hfirst (halike.isSome hdup)]
                exact .pure (halike.cons hpart)
      | leave hrest =>
          have htail := readFields_follows k fs hrest
          have hslot : k.slot? "id" = some .id := rfl
          intro start x stop hx start'
          rw [readFields, hslot] at hx
          obtain ⟨p, middle, -, hx⟩ := bind_eq_some hx
          obtain ⟨ps, stop, hps, hx⟩ := bind_eq_some hx
          obtain ⟨qs, stop', hqs, halike⟩ := htail middle ps stop hps start'
          split at hx
          · cases hx
          · cases hx
            exact ⟨qs, stop', hqs, halike.leave p⟩
termination_by sizeOf fs

/-- The items of a node are read alike. -/
theorem readItems_follows (fields : List (String × Slot)) (vs : List Json) {ws : List Json}
    (h : ReidItems (fields.map fun f => f.2.role) vs ws) :
    Follows Parts.Alike (readItems fields vs) (readItems fields ws) := by
  cases vs with
  | nil => rw [h.eq_nil, readItems]; exact .pure (.refl [])
  | cons v vs =>
      cases fields with
      | nil => intro start x stop hx; cases hx
      | cons f fields =>
          cases h with
          | @cons _ _ _ w _ ws hv hrest =>
              rw [readItems, readItems]
              refine (readPart_follows hv
                (fun hrole => ofJson_follows true v (hrole ▸ hv))
                (fun hrole => exprsOfJson_follows v (hrole ▸ hv))).bind fun p q hpart => ?_
              exact (readItems_follows fields vs hrest).bind fun ps qs halike =>
                .pure (halike.cons hpart)
termination_by sizeOf vs

/-- A list of nodes inside another one is read alike. -/
theorem exprsOfJson_follows (v : Json) {w : Json} (h : Reid .nodes v w) :
    Follows AlikeAll (exprsOfJson v) (exprsOfJson w) := by
  cases v with
  | array vs =>
      obtain ⟨ws, rfl, hitems⟩ := nodes_of_reid h
      exact innerExprs_follows vs hitems
  | _ => intro start x stop hx; cases hx
termination_by sizeOf v

/-- Nodes inside another one are read alike, one after the other. -/
theorem innerExprs_follows (vs : List Json) {ws : List Json}
    (h : ReidItems (vs.map fun _ => .node) vs ws) :
    Follows AlikeAll (innerExprs vs) (innerExprs ws) := by
  cases vs with
  | nil => rw [h.eq_nil]; exact .pure rfl
  | cons v vs =>
      cases h with
      | @cons _ _ _ w _ ws hv hrest =>
          rw [innerExprs, innerExprs]
          refine (ofJson_follows true v hv).bind fun e e' he => ?_
          refine (innerExprs_follows vs hrest).bind fun es es' hes => .pure ?_
          rw [AlikeAll, withoutIdsAll, withoutIdsAll, he, hes]
termination_by sizeOf vs

end

/-- A closed record stays closed. -/
theorem closed_reid {roles : List (String × Role)} {fs gs : List (String × Json)}
    (h : ReidFields roles fs gs) {names : List String}
    (hfs : ¬(fs.any fun f => !names.contains f.1) = true) :
    ¬(gs.any fun g => !names.contains g.1) = true := by
  rw [List.any_eq_true] at hfs ⊢
  rintro ⟨g, hg, hname⟩
  obtain ⟨f, hf, hkey⟩ := mem_keys_of_reidFields h hg
  rw [← hkey] at hname
  exact hfs ⟨f, hf, hname⟩

/-- The record of a document with other ids. -/
theorem record_document {v w : Json} (h : Reid .document v w) {source vars : Option Json}
    {es : List Json}
    (hv : v.record? true ["source", "variables", "expressions"] =
      some [source, vars, some (.array es)]) :
    ∃ es', w.record? true ["source", "variables", "expressions"] =
        some [source, vars, some (.array es')] ∧ ReidItems (es.map fun _ => .node) es es' := by
  cases h with
  | same => exact ⟨es, hv, .same _ es⟩
  | @document fs gs hfields =>
      rw [record_object, Bool.true_and] at hv ⊢
      split at hv
      · cases hv
      · rename_i hclosed
        rw [if_neg (closed_reid hfields hclosed)]
        simp only [List.mapM_cons, List.mapM_nil, Option.bind_eq_bind, Option.bind_eq_some_iff,
          Option.pure_def, Option.some.injEq] at hv ⊢
        obtain ⟨_, hsource, _, ⟨_, hvars, _, ⟨_, hes, _, rfl, rfl⟩, rfl⟩, hlist⟩ := hv
        cases hlist
        have hsource' := single_of_other hfields rfl (by decide) hsource
        have hvars' := single_of_other hfields rfl (by decide) hvars
        obtain ⟨o', ho', hreid, hsome⟩ := single_reid hfields hes
        obtain ⟨w, rfl⟩ := Option.isSome_iff_exists.mp (hsome (by decide))
        obtain ⟨v, hv, hnodes⟩ := hreid w rfl
        cases hv
        obtain ⟨es', rfl, hitems⟩ := nodes_of_reid hnodes
        exact ⟨es', ⟨source, hsource', _, ⟨vars, hvars', _, ⟨_, ho', _, rfl, rfl⟩, rfl⟩, rfl⟩,
          hitems⟩
  | @documentItems vs ws hitems =>
      -- the expressions can only be the third of three items
      rcases vs with _ | ⟨a, _ | ⟨b, _ | ⟨c, _ | ⟨d, vs⟩⟩⟩⟩ <;> simp [record?] at hv
      obtain ⟨rfl, rfl, rfl⟩ := hv
      obtain _ | _ | ⟨ha, _ | _ | ⟨hb, _ | _ | ⟨hc, hnil⟩⟩⟩ := hitems
      cases hnil
      obtain ⟨es', rfl, hes⟩ := nodes_of_reid hc
      rw [ha.eq_of_other, hb.eq_of_other]
      exact ⟨es', rfl, hes⟩

/-- The documents are equal but for the ids of their expressions. -/
structure Document.Alike (d d' : Document) : Prop where
  source : d'.source = d.source
  declared : d'.declared = d.declared
  expressions : AlikeAll d.expressions d'.expressions

namespace Document

/-- Expressions are read alike, one after the other. -/
theorem expressionsOf_follows {vs ws : List Json} (h : ReidItems (vs.map fun _ => .node) vs ws) :
    Follows AlikeAll (expressionsOf vs) (expressionsOf ws) := by
  induction vs generalizing ws with
  | nil => rw [h.eq_nil]; exact .pure rfl
  | cons v vs ih =>
      cases h with
      | @cons _ _ _ w _ ws hv hrest =>
          rw [expressionsOf, expressionsOf]
          refine (ofJson_follows false v hv).bind fun e e' he => ?_
          refine (ih hrest).bind fun es es' hes => .pure ?_
          rw [AlikeAll, withoutIdsAll, withoutIdsAll, he, hes]

/-- **A document is read whatever the ids in its text are.** -/
theorem ofJson_follows {v w : Json} (h : Reid .document v w) :
    Follows Alike (ofJson v) (ofJson w) := by
  unfold ofJson
  refine .lift_bind fun l start r hl hr => ?_
  split at hr
  · obtain ⟨es', hw, hitems⟩ := record_document h hl
    refine ⟨_, hw, ?_⟩
    dsimp only
    refine (Follows.lift_same _).bind fun source source' hsource => ?_
    refine (Follows.lift_same _).bind fun declared declared' hdeclared => ?_
    refine (expressionsOf_follows hitems).bind fun es es' hes => .pure ⟨hsource, hdeclared, ?_⟩
    have hdistinct : ∀ es : List Expr,
        withoutIdsAll (es.map fun e => e.distinct.1) = withoutIdsAll es := by
      intro es
      rw [withoutIdsAll_eq, withoutIdsAll_eq, List.map_map]
      exact List.map_congr_left fun e _ => e.withoutIds_distinct
    rw [AlikeAll, hdistinct, hdistinct, hes]
  · cases hr

/-- The expressions of a document have distinct ids, each of them for itself. -/
theorem nodup_ids {v : Json} {start stop : NodeId} {d : Document}
    (h : ofJson v start = some (d, stop)) {e : Expr} (he : e ∈ d.expressions) : e.ids.Nodup := by
  unfold ofJson at h
  obtain ⟨l, middle, -, h⟩ := bind_eq_some h
  split at h
  · obtain ⟨source, first, -, h⟩ := bind_eq_some h
    obtain ⟨declared, second, -, h⟩ := bind_eq_some h
    obtain ⟨es, third, -, h⟩ := bind_eq_some h
    cases h
    obtain ⟨e, -, rfl⟩ := List.mem_map.mp he
    exact e.nodup_distinct
  · cases h

end Document

end QueryTyping
