import QueryTyping.Proofs.Expr.WithoutIds
import QueryTyping.Proofs.Reading.Reid

/-!
# Reading with other ids

Reading may draw fresh ids, so what is read depends on the next one; whether anything is read does
not.  One reading follows another if it succeeds wherever it starts once the other one has
succeeded anywhere, with a related result.

Main statements: `Follows.bind` composes readings, `record_binding` and `Binding.ofJson_follows` say
what other ids do to a binding, and `Alike.build` that a node is built alike of parts that differ in
ids alone.
-/

namespace QueryTyping

namespace Draw

variable {α β γ δ : Type} {R : α → β → Prop} {S : γ → δ → Prop}

/-- Whatever is read first, from wherever, something related is read second, from anywhere. -/
def Follows (R : α → β → Prop) (first : Draw α) (second : Draw β) : Prop :=
  ∀ start x stop, first start = some (x, stop) →
    ∀ start', ∃ y stop', second start' = some (y, stop') ∧ R x y

theorem bind_eq_some {a : Draw α} {f : α → Draw γ} {start : NodeId} {r : γ × NodeId}
    (h : (a >>= f) start = some r) : ∃ x middle, a start = some (x, middle) ∧ f x middle = some r := by
  obtain ⟨⟨x, middle⟩, ha, hf⟩ := Option.bind_eq_some_iff.mp h
  exact ⟨x, middle, ha, hf⟩

theorem lift_eq (o : Option α) (start : NodeId) :
    (liftM o : Draw α) start = o.map fun x => (x, start) := by
  cases o <;> rfl

theorem lift_bind_eq_some {o : Option α} {f : α → Draw γ} {start : NodeId} {r : γ × NodeId}
    (h : (liftM o >>= f) start = some r) : ∃ x, o = some x ∧ f x start = some r := by
  obtain ⟨x, middle, hx, hf⟩ := bind_eq_some h
  rw [lift_eq] at hx
  obtain ⟨x, ho, hx⟩ := Option.map_eq_some_iff.mp hx
  cases hx
  exact ⟨x, ho, hf⟩

theorem Follows.pure {x : α} {y : β} (h : R x y) : Follows R (pure x) (pure y) := by
  intro start x' stop hx start'
  cases hx
  exact ⟨y, start', rfl, h⟩

theorem Follows.bind {a : Draw α} {b : Draw β} {f : α → Draw γ} {g : β → Draw δ}
    (hab : Follows R a b) (hfg : ∀ x y, R x y → Follows S (f x) (g y)) :
    Follows S (a >>= f) (b >>= g) := by
  intro start z stop hz start'
  obtain ⟨x, middle, hx, hz⟩ := bind_eq_some hz
  obtain ⟨y, middle', hy, hxy⟩ := hab start x middle hx start'
  obtain ⟨w, stop', hw, hzw⟩ := hfg x y hxy middle z stop hz middle'
  refine ⟨w, stop', ?_, hzw⟩
  change Option.bind (b start') _ = _
  rw [hy]
  exact hw

theorem Follows.map {a : Draw α} {b : Draw β} {f : α → γ} {g : β → δ} (hab : Follows R a b)
    (hfg : ∀ x y, R x y → S (f x) (g y)) : Follows S (f <$> a) (g <$> b) := by
  rw [map_eq_pure_bind, map_eq_pure_bind]
  exact hab.bind fun x y hxy => .pure (hfg x y hxy)

theorem Follows.lift {o : Option α} {o' : Option β}
    (h : ∀ x, o = some x → ∃ y, o' = some y ∧ R x y) : Follows R (liftM o) (liftM o') := by
  intro start x stop hx start'
  rw [lift_eq] at hx
  obtain ⟨x, ho, hx⟩ := Option.map_eq_some_iff.mp hx
  cases hx
  obtain ⟨y, ho', hxy⟩ := h x ho
  exact ⟨y, start', by rw [lift_eq, ho']; rfl, hxy⟩

/-- Of a value that may be missing and that reading goes on from, it only matters what it is if
reading goes on. -/
theorem Follows.lift_bind {o : Option α} {o' : Option β} {f : α → Draw γ} {g : β → Draw δ}
    (h : ∀ x start r, o = some x → f x start = some r → ∃ y, o' = some y ∧ Follows S (f x) (g y)) :
    Follows S (liftM o >>= f) (liftM o' >>= g) := by
  intro start z stop hz start'
  obtain ⟨x, ho, hz⟩ := lift_bind_eq_some hz
  obtain ⟨y, ho', hfg⟩ := h x start _ ho hz
  rw [ho']
  exact hfg start z stop hz start'

/-- Without anything to read, reading always succeeds. -/
theorem Follows.to_pure {a : Draw α} (y : β) : Follows (fun _ _ => True) a (Pure.pure y) :=
  fun _ _ _ _ start' => ⟨y, start', rfl, trivial⟩

/-- An id can always be drawn. -/
theorem Follows.drawId (o o' : Option NodeId) :
    Follows (fun _ _ => True) (drawId o) (drawId o') := by
  intro start x stop _ start'
  cases o' with
  | none => exact ⟨start', start' + 1, rfl, trivial⟩
  | some n => exact ⟨n, start', rfl, trivial⟩

end Draw

namespace Json

/-- The value of the field of a name, which occurs at most once. -/
def single? (fs : List (String × Json)) (name : String) : Option (Option Json) :=
  match fs.filter (·.1 == name) with
  | [] => some none
  | [f] => some (some f.2)
  | _ => none

/-- A field that may have been left off, or may have another id in it. -/
def FieldReid (role : Role) (o o' : Option Json) : Prop :=
  ∀ w, o' = some w → ∃ v, o = some v ∧ Reid role v w

/-- **The fields of a record with other ids.**  Only the field of an id is left off. -/
theorem single_reid {roles : List (String × Role)} {fs gs : List (String × Json)}
    (h : ReidFields roles fs gs) {key : String} {o : Option Json} (ho : single? fs key = some o) :
    ∃ o', single? gs key = some o' ∧ FieldReid (roleOf roles key) o o' ∧
      (key ≠ "id" → o'.isSome = o.isSome) := by
  obtain ⟨hnone, hone⟩ := filter_reid h key
  unfold single? at ho ⊢
  split at ho
  · rename_i hfilter
    cases ho
    rw [hnone hfilter]
    exact ⟨none, rfl, fun w hw => by (cases hw), fun _ => rfl⟩
  · rename_i f hfilter
    cases ho
    rcases hone f hfilter with ⟨hid, hgs⟩ | ⟨g, hgs, hreid⟩
    · rw [hgs]
      exact ⟨none, rfl, fun w hw => by (cases hw), fun hne => absurd hid hne⟩
    · rw [hgs]
      refine ⟨some g.2, rfl, fun w hw => ?_, fun _ => rfl⟩
      cases hw
      exact ⟨f.2, rfl, hreid⟩
  · cases ho

theorem FieldReid.same (role : Role) (o : Option Json) : FieldReid role o o :=
  fun w hw => ⟨w, hw, .same role w⟩

/-- A field without ids stays. -/
theorem single_of_other {roles : List (String × Role)} {fs gs : List (String × Json)}
    (h : ReidFields roles fs gs) {key : String} (hrole : roleOf roles key = .other)
    (hkey : key ≠ "id") {o : Option Json} (ho : single? fs key = some o) :
    single? gs key = some o := by
  obtain ⟨o', ho', hreid, hsome⟩ := single_reid h ho
  have hsame := hsome hkey
  rw [hrole] at hreid
  cases o' with
  | none =>
      cases o with
      | none => exact ho'
      | some v => cases hsame
  | some w =>
      obtain ⟨v, rfl, hv⟩ := hreid w rfl
      rw [ho', hv.eq_of_other]

theorem record_object (closed : Bool) (names : List String) (fs : List (String × Json)) :
    record? closed names (.object fs) =
      if closed && fs.any (fun f => !names.contains f.1) then none
      else names.mapM (single? fs) := rfl

/-- The record of a binding with other ids. -/
theorem record_binding {v w : Json} (h : Reid .binding v w) {o span : Option Json} {name : Json}
    (hv : v.record? false ["id", "span", "name"] = some [o, span, some name]) :
    ∃ o', w.record? false ["id", "span", "name"] = some [o', span, some name] ∧
      FieldReid .id o o' := by
  cases h with
  | same => exact ⟨o, hv, .same .id o⟩
  | @binding fs gs hfields =>
      rw [record_object, Bool.false_and, if_neg Bool.false_ne_true] at hv ⊢
      simp only [List.mapM_cons, List.mapM_nil, Option.bind_eq_bind, Option.bind_eq_some_iff,
        Option.pure_def, Option.some.injEq] at hv ⊢
      obtain ⟨_, hid, _, ⟨_, hspan, _, ⟨_, hname, _, rfl, rfl⟩, rfl⟩, hlist⟩ := hv
      cases hlist
      obtain ⟨o', ho', hreid, -⟩ := single_reid hfields hid
      have hspan' := single_of_other hfields rfl (by decide) hspan
      have hname' := single_of_other hfields rfl (by decide) hname
      exact ⟨o', ⟨o', ho', _, ⟨span, hspan', _, ⟨some name, hname', _, rfl, rfl⟩, rfl⟩, rfl⟩, hreid⟩
  | @bindingItems vs ws hitems =>
      -- a name can only be the third of three items
      rcases vs with _ | ⟨a, _ | ⟨b, _ | ⟨c, _ | ⟨d, vs⟩⟩⟩⟩ <;> simp [record?] at hv
      obtain ⟨rfl, rfl, rfl⟩ := hv
      obtain _ | _ | ⟨ha, _ | _ | ⟨hb, _ | _ | ⟨hc, hnil⟩⟩⟩ := hitems
      cases hnil
      rw [hb.eq_of_other, hc.eq_of_other]
      refine ⟨_, rfl, fun w hw => ?_⟩
      cases hw
      exact ⟨a, rfl, ha⟩

end Json

open Draw

/-- Two readings of one text give one result. -/
theorem Draw.Follows.lift_same {α : Type} (o : Option α) :
    Follows (fun x y => y = x) (liftM o) (liftM o) :=
  .lift fun x hx => ⟨x, hx, rfl⟩

/-- A binding is read whatever its id is. -/
theorem Binding.ofJson_follows {v w : Json} (h : Json.Reid .binding v w) :
    Follows (fun b b' => b'.withoutId = b.withoutId) (Binding.ofJson v) (Binding.ofJson w) := by
  unfold Binding.ofJson
  refine .lift_bind fun l start r hl hr => ?_
  split at hr
  · rename_i o span name
    obtain ⟨o', hw, hid⟩ := Json.record_binding h hl
    refine ⟨_, hw, ?_⟩
    dsimp only
    have hrest : ∀ given given' : Option NodeId,
        Follows (fun b b' : Binding => b'.withoutId = b.withoutId)
          (do
            let span ← liftM (Span.ofJsonOr? span)
            let name ← liftM name.string?
            return { id := ← drawId given, span, name })
          (do
            let span ← liftM (Span.ofJsonOr? span)
            let name ← liftM name.string?
            return { id := ← drawId given', span, name }) := by
      intro given given'
      refine (Follows.lift_same _).bind fun span span' hspan => ?_
      subst hspan
      refine (Follows.lift_same _).bind fun name name' hname => ?_
      subst hname
      exact (Follows.drawId given given').bind fun i i' _ => .pure rfl
    cases o' with
    | none =>
        cases o with
        | none => exact hrest none none
        | some v => exact (Follows.to_pure none).bind fun given given' _ => hrest given given'
    | some w' =>
        obtain ⟨v', rfl, hreid⟩ := hid w' rfl
        refine Follows.bind (R := fun _ _ => True) (.map (R := fun _ _ => True) (.lift ?_) ?_)
          fun given given' _ => hrest given given'
        · intro n hn
          obtain ⟨n', hn'⟩ := Option.isSome_iff_exists.mp (hreid.isSome_nat (by rw [hn]; rfl))
          exact ⟨n', hn', trivial⟩
        · exact fun _ _ _ => trivial
  · cases hr

/-- A part of a node with zero for every id. -/
def Part.withoutIds : Part → Part
  | .id _ => .id 0
  | .binding b => .binding b.withoutId
  | .expr e => .expr e.withoutIds
  | .exprs es => .exprs (withoutIdsAll es)
  | p => p

namespace Parts

/-- The parts of a node with zero for every id. -/
def withoutIds (ps : Parts) : Parts := ps.map fun p => (p.1, p.2.withoutIds)

variable {ps qs : Parts} {key : String}

theorem lookup_withoutIds (ps : Parts) (key : String) :
    ps.withoutIds.lookup key = (ps.lookup key).map Part.withoutIds := by
  induction ps with
  | nil => rfl
  | cons p ps ih =>
      rw [withoutIds, List.map_cons, List.lookup_cons, List.lookup_cons, ← withoutIds, ih]
      split <;> rfl

/-! What is read off the parts, with zero for every id -/

theorem text_withoutIds (ps : Parts) (key : String) :
    ps.withoutIds.text? key = ps.text? key := by
  rw [text?, text?, lookup_withoutIds]
  rcases ps.lookup key with _ | _ | _ <;> rfl

theorem expr_withoutIds (ps : Parts) (key : String) :
    ps.withoutIds.expr? key = (ps.expr? key).map Expr.withoutIds := by
  rw [expr?, expr?, lookup_withoutIds]
  rcases ps.lookup key with _ | _ | _ <;> rfl

theorem exprs_withoutIds (ps : Parts) (key : String) :
    ps.withoutIds.exprs? key = (ps.exprs? key).map withoutIdsAll := by
  rw [exprs?, exprs?, lookup_withoutIds]
  rcases ps.lookup key with _ | _ | _ <;> rfl

theorem binding_withoutIds (ps : Parts) :
    ps.withoutIds.binding? = ps.binding?.map Binding.withoutId := by
  rw [binding?, binding?, lookup_withoutIds]
  rcases ps.lookup "variable" with _ | _ | _ <;> rfl

theorem literal_withoutIds (ps : Parts) : ps.withoutIds.literal? = ps.literal? := by
  rw [literal?, literal?, lookup_withoutIds]
  rcases ps.lookup "value" with _ | _ | _ <;> rfl

theorem unary_withoutIds (ps : Parts) : ps.withoutIds.unary? = ps.unary? := by
  rw [unary?, unary?, lookup_withoutIds]
  rcases ps.lookup "op" with _ | _ | _ <;> rfl

theorem binary_withoutIds (ps : Parts) : ps.withoutIds.binary? = ps.binary? := by
  rw [binary?, binary?, lookup_withoutIds]
  rcases ps.lookup "op" with _ | _ | _ <;> rfl

theorem quantifier_withoutIds (ps : Parts) : ps.withoutIds.quantifier? = ps.quantifier? := by
  rw [quantifier?, quantifier?, lookup_withoutIds]
  rcases ps.lookup "kind" with _ | _ | _ <;> rfl

theorem distinct_withoutIds (ps : Parts) : ps.withoutIds.distinct = ps.distinct := by
  rw [distinct, distinct, lookup_withoutIds]
  rcases ps.lookup "distinct" with _ | _ | _ <;> rfl

theorem span_withoutIds (ps : Parts) : ps.withoutIds.span = ps.span := by
  rw [span, span, lookup_withoutIds]
  rcases ps.lookup "span" with _ | _ | _ <;> rfl

/-- **A node is built alike of parts without ids.** -/
theorem build_withoutIds (ps : Parts) (n : Node) (k : Kind) :
    ps.withoutIds.build? n.withoutId k = (ps.build? n k).map Expr.withoutIds := by
  cases k <;>
    simp [build?, optionalExpr, text_withoutIds, expr_withoutIds, exprs_withoutIds,
      binding_withoutIds, literal_withoutIds, unary_withoutIds, binary_withoutIds,
      quantifier_withoutIds, distinct_withoutIds, Option.map_bind, Option.bind_map,
      Function.comp_def, Expr.withoutIds, withoutIdsOption_eq]

/-- The second parts are the first ones up to ids, and have an id only if the first ones do. -/
structure Alike (ps qs : Parts) : Prop where
  own : ∀ key, key ≠ "id" → qs.withoutIds.lookup key = ps.withoutIds.lookup key
  id : (qs.lookup "id").isSome = true → (ps.lookup "id").isSome = true

/-- Where there is a part there was one. -/
theorem Alike.isSome (h : ps.Alike qs) (hkey : (qs.lookup key).isSome = true) :
    (ps.lookup key).isSome = true := by
  by_cases hid : key = "id"
  · subst hid
    exact h.id hkey
  · have hown := h.own key hid
    rw [lookup_withoutIds, lookup_withoutIds] at hown
    rw [← Option.isSome_map (f := Part.withoutIds), ← hown, Option.isSome_map]
    exact hkey

/-- The parts go on alike after a part of the same name that differs at most in ids. -/
theorem Alike.cons (h : ps.Alike qs) {p q : Part} (hpart : q.withoutIds = p.withoutIds) :
    Alike ((key, p) :: ps) ((key, q) :: qs) where
  own name hname := by
    have hown := h.own name hname
    rw [withoutIds] at hown ⊢
    rw [withoutIds] at hown ⊢
    simp only [List.map_cons, List.lookup_cons, hpart, hown]
  id hid := by
    rw [List.lookup_cons] at hid ⊢
    split
    · rfl
    · rename_i hne
      rw [hne] at hid
      exact h.id hid

/-- The id may be left off. -/
theorem Alike.leave (h : ps.Alike qs) (p : Part) : Alike (("id", p) :: ps) qs where
  own name hname := by
    have hown := h.own name hname
    have hne : (name == "id") = false := by simp [hname]
    rw [hown, withoutIds, withoutIds, List.map_cons, List.lookup_cons, hne]
  id _ := rfl

/-- The span of a node has nothing to do with ids. -/
theorem Alike.span (h : ps.Alike qs) : qs.span = ps.span := by
  rw [← span_withoutIds qs, ← span_withoutIds ps, Parts.span, Parts.span, h.own _ (by decide)]

/-- **A node is built alike of parts that differ in ids alone.** -/
theorem Alike.build (h : ps.Alike qs) (n n' : Node) (hspan : n'.span = n.span) (k : Kind) :
    (qs.build? n' k).map Expr.withoutIds = (ps.build? n k).map Expr.withoutIds := by
  have hnode : n'.withoutId = n.withoutId := by rw [Node.withoutId, Node.withoutId, hspan]
  have hlookup : ∀ key, key ≠ "id" → qs.withoutIds.lookup key = ps.withoutIds.lookup key := h.own
  rw [← build_withoutIds, ← build_withoutIds, hnode]
  cases k <;>
    simp [build?, optionalExpr, text?, expr?, exprs?, binding?, literal?, unary?, binary?,
      quantifier?, distinct, hlookup]

/-- A node is read whatever its id is. -/
theorem Alike.assemble (h : ps.Alike qs) (k : Kind) :
    Follows (fun e e' => e'.withoutIds = e.withoutIds) (ps.assemble k) (qs.assemble k) := by
  unfold Parts.assemble
  refine (Follows.drawId ps.id? qs.id?).bind fun i i' _ => .lift fun e he => ?_
  have hbuild := h.build ⟨i, ps.span⟩ ⟨i', qs.span⟩ h.span k
  rw [he, Option.map_some] at hbuild
  obtain ⟨e', he', hsame⟩ := Option.map_eq_some_iff.mp hbuild
  exact ⟨e', he', hsame⟩

end Parts

end QueryTyping
