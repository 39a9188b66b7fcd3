import Mathlib.Data.List.Forall2
import QueryTyping.Expr.Fold
import QueryTyping.Expr.OfJson
import QueryTyping.Expr.ToJson
import QueryTyping.Proofs.Span.Stored

/-!
# Expressions are stored without loss

A stored node has all fields of its kind, so none of the defaults is used and no id is drawn: what is
read is what was stored, and the next fresh id stays the next one.  A predicate or a projection that
is missing is stored as `null` and comes back as missing.

Ids and the numbers of spans are machine words, and integers are signed ones.  Doubles are taken over
from their written form, so each of them has to read back from it.

Main statements: `readFields_eq` says that fields are read one by one, `ofJson_nodeJson` what this
makes of a stored node, `ofJson_toJson` that the stored form of an expression is read back, and
`read_stored` that its text is.
-/

namespace QueryTyping

/-! ### Fields -/

/-- What is there is taken, and no id is drawn. -/
theorem Draw.lift_some {α : Type} (a : α) : (liftM (some a) : Draw α) = pure a := rfl

/-- The field is one of the kind, and it is read as this part without drawing an id. -/
structure Kind.Reads (k : Kind) (f : String × Json) (p : String × Part) : Prop where
  key : p.1 = f.1
  part : ∃ slot, k.slot? f.1 = some slot ∧
    readPart f.2 (Expr.ofJson true f.2) (exprsOfJson f.2) slot = pure p.2

variable {k : Kind} {n : Node}

theorem Kind.Reads.map_key {fs : List (String × Json)} {ps : Parts}
    (h : List.Forall₂ k.Reads fs ps) : ps.map (·.1) = fs.map (·.1) := by
  induction h with
  | nil => rfl
  | cons hf _ ih => rw [List.map_cons, List.map_cons, hf.key, ih]

/-- Fields of different names are read one by one. -/
theorem readFields_eq {fs : List (String × Json)} {ps : Parts} (h : List.Forall₂ k.Reads fs ps)
    (hnodup : (fs.map (·.1)).Nodup) : readFields k fs = pure ps := by
  induction h with
  | nil => rw [readFields]
  | @cons f p fs ps hf hfs ih =>
      obtain ⟨key, v⟩ := f
      obtain ⟨key', part⟩ := p
      obtain ⟨hkey, slot, hslot, hpart⟩ := hf
      subst hkey
      rw [List.map_cons, List.nodup_cons] at hnodup
      have hlookup : ps.lookup key' = none := by
        rw [List.lookup_eq_none_iff]
        intro p hp
        have hmem : p.1 ∈ fs.map (·.1) := by
          rw [← Kind.Reads.map_key hfs]
          exact List.mem_map_of_mem hp
        rw [bne_iff_ne]
        intro heq
        exact hnodup.1 (heq ▸ hmem)
      rw [readFields, hslot]
      dsimp only at hpart ⊢
      rw [hpart, ih hnodup.2]
      simp [hlookup]

/-- The keys of a stored node. -/
theorem nodup_keys (k : Kind) :
    ("type" :: "id" :: "span" :: k.ownFields.map (·.1)).Nodup := by
  cases k <;> decide

/-- A key that is no field of a kind holds nothing. -/
theorem slot_type (k : Kind) : k.slot? "type" = none := by
  cases k <;> rfl

/-- The kind that a stored node names. -/
theorem ofFields_stored (inner : Bool) {fs : List (String × Json)}
    (h : "type" ∉ fs.map (·.1)) :
    Kind.ofFields? inner (("type", .string k.name) :: fs) = some k := by
  have hrest : fs.filter (·.1 == "type") = [] := by
    rw [List.filter_eq_nil_iff]
    intro f hf heq
    exact h (List.mem_map.mpr ⟨f, hf, beq_iff_eq.mp heq⟩)
  rw [Kind.ofFields?, List.filter_cons_of_pos (by rfl), hrest]
  exact Kind.ofName_name k

/-- The node of some parts, whose id has been given. -/
theorem assemble_stored {ps : Parts} {e : Expr}
    (h : Parts.build? (("id", .id n.id) :: ("span", .span n.span) :: ps) n k = some e) :
    Parts.assemble (("id", .id n.id) :: ("span", .span n.span) :: ps) k = pure e := by
  have hid : Parts.id? (("id", .id n.id) :: ("span", .span n.span) :: ps) = some n.id := rfl
  have hspan : Parts.span (("id", .id n.id) :: ("span", .span n.span) :: ps) = n.span := rfl
  rw [Parts.assemble, hid, hspan, drawId, pure_bind, h]
  rfl

/-- **A stored node is read back** if its own fields are, one by one, and make up the node. -/
theorem ofJson_nodeJson (inner : Bool) {own : List (String × Json)} {ps : Parts} {e : Expr}
    (hid : n.id < wordLimit) (hspan : n.span.Fits) (hkeys : own.map (·.1) = k.ownFields.map (·.1))
    (hown : List.Forall₂ k.Reads own ps)
    (hbuild : Parts.build? (("id", .id n.id) :: ("span", .span n.span) :: ps) n k = some e) :
    Expr.ofJson inner (nodeJson k n own) = pure e := by
  have hnodup := nodup_keys k
  rw [← hkeys, List.nodup_cons] at hnodup
  obtain ⟨htype, hnodup⟩ := hnodup
  have hids : k.Reads ("id", .ofNat n.id) ("id", .id n.id) := by
    refine ⟨rfl, .id, rfl, ?_⟩
    simp only [readPart, readPlain?, Json.nat_ofNat hid]
    rfl
  have hspans : k.Reads ("span", n.span.toJson) ("span", .span n.span) := by
    refine ⟨rfl, .span, rfl, ?_⟩
    simp only [readPart, readPlain?, hspan.ofJson_toJson]
    rfl
  have hfields := readFields_eq (.cons hids (.cons hspans hown)) hnodup
  have hkind : Kind.ofFields? inner (("type", .string k.name) :: ("id", .ofNat n.id) ::
      ("span", n.span.toJson) :: own) = some k := ofFields_stored inner htype
  have hskip : readFields k (("type", .string k.name) :: ("id", .ofNat n.id) ::
      ("span", n.span.toJson) :: own) = pure (("id", .id n.id) :: ("span", .span n.span) :: ps) := by
    rw [readFields.eq_def]
    dsimp only
    rw [slot_type]
    exact hfields
  rw [nodeJson, Expr.ofJson, hkind, Draw.lift_some, pure_bind, hskip, pure_bind]
  exact assemble_stored hbuild

/-! ### Bindings -/

theorem Binding.ofJson_toJson {b : Binding} (hid : b.id < wordLimit) (hspan : b.span.Fits) :
    Binding.ofJson b.toJson = pure b := by
  have hrecord : b.toJson.record? false ["id", "span", "name"] =
      some [some (.ofNat b.id), some b.span.toJson, some (.string b.name)] := by
    simp [toJson, Json.record?]
  have hread : Span.ofJsonOr? (some b.span.toJson) = some b.span := hspan.ofJson_toJson
  have hnat : (Json.ofNat b.id).nat? wordLimit = some b.id := Json.nat_ofNat hid
  rw [Binding.ofJson, hrecord, Draw.lift_some, pure_bind]
  dsimp only
  rw [hnat, hread]
  rfl

/-! ### Expressions -/

namespace Expr

/-- The integer that a node is. -/
def integer? : Expr → Option Int
  | literal _ (.integer i) => some i
  | _ => none

/-- The double that a node is. -/
def float? : Expr → Option Binary64
  | literal _ (.float x) => some x
  | _ => none

/-- The numbers of a node and of its binding are machine words, and an integer is a signed one. -/
structure OwnFits (e : Expr) : Prop where
  id : e.id < wordLimit
  span : e.span.Fits
  bound : ∀ b ∈ e.bound?, b.id < wordLimit ∧ b.span.Fits
  integer : ∀ i ∈ e.integer?, -0x8000000000000000 ≤ i ∧ i < 0x8000000000000000

instance (e : Expr) : Decidable e.OwnFits :=
  decidable_of_iff
    (e.id < wordLimit ∧ e.span.Fits ∧ (∀ b ∈ e.bound?, b.id < wordLimit ∧ b.span.Fits) ∧
      ∀ i ∈ e.integer?, -0x8000000000000000 ≤ i ∧ i < 0x8000000000000000)
    ⟨fun h => ⟨h.1, h.2.1, h.2.2.1, h.2.2.2⟩, fun h => ⟨h.id, h.span, h.bound, h.integer⟩⟩

/-- All numbers in the tree fit into what stores them. -/
def Fits (e : Expr) : Prop := ∀ d ∈ e.nodes, d.OwnFits

instance (e : Expr) : Decidable e.Fits := inferInstanceAs (Decidable (∀ d ∈ e.nodes, d.OwnFits))

/-- Each double in the tree reads back from its written form. -/
def FloatsReadBack (e : Expr) : Prop := ∀ d ∈ e.nodes, ∀ x ∈ d.float?, x.ReadsBack

instance (e : Expr) : Decidable e.FloatsReadBack :=
  inferInstanceAs (Decidable (∀ d ∈ e.nodes, ∀ x ∈ d.float?, x.ReadsBack))

variable {e c : Expr}

theorem mem_nodes_self (e : Expr) : e ∈ e.nodes := by
  rw [nodes_eq]
  exact List.mem_cons_self

theorem mem_nodes_of_child {d : Expr} (hc : c ∈ e.children) (hd : d ∈ c.nodes) : d ∈ e.nodes := by
  rw [nodes_eq]
  exact List.mem_cons_of_mem _ (List.mem_flatMap.mpr ⟨c, hc, hd⟩)

theorem Fits.child (h : e.Fits) (hc : c ∈ e.children) : c.Fits :=
  fun d hd => h d (mem_nodes_of_child hc hd)

theorem FloatsReadBack.child (h : e.FloatsReadBack) (hc : c ∈ e.children) : c.FloatsReadBack :=
  fun d hd => h d (mem_nodes_of_child hc hd)

theorem Fits.own (h : e.Fits) : e.OwnFits := h e (mem_nodes_self e)

theorem toJsonAll_eq (es : List Expr) : toJsonAll es = es.map toJson := by
  induction es with
  | nil => rw [toJsonAll, List.map_nil]
  | cons e es ih => rw [toJsonAll, ih, List.map_cons]

/-- Trees in a row. -/
theorem innerExprs_toJsonAll {es : List Expr} (h : ∀ c ∈ es, Expr.ofJson true c.toJson = pure c) :
    innerExprs (toJsonAll es) = pure es := by
  induction es with
  | nil => rw [toJsonAll, innerExprs]
  | cons e es ih =>
      have hhead := h e List.mem_cons_self
      have hrest := ih fun c hc => h c (List.mem_cons_of_mem _ hc)
      rw [toJsonAll, innerExprs, hhead, hrest]
      rfl

/-! What each field of a stored node is read as -/

variable {key : String}

theorem reads_plain {v : Json} {slot : Slot} {part : Part} (hslot : k.slot? key = some slot)
    (hv : readPlain? v slot = some part) : k.Reads (key, v) (key, part) := by
  refine ⟨rfl, slot, hslot, ?_⟩
  cases slot with
  | binding => cases hv
  | expr => cases hv
  | optionalExpr => cases hv
  | exprs => cases hv
  | _ =>
      rw [readPart, hv] <;> first | rfl | exact Slot.noConfusion

theorem reads_expr (hslot : k.slot? key = some .expr) (hc : Expr.ofJson true c.toJson = pure c) :
    k.Reads (key, c.toJson) (key, .expr c) := by
  refine ⟨rfl, .expr, hslot, ?_⟩
  rw [readPart, hc]
  rfl

theorem reads_exprs {es : List Expr} (hslot : k.slot? key = some .exprs)
    (h : ∀ c ∈ es, Expr.ofJson true c.toJson = pure c) :
    k.Reads (key, .array (toJsonAll es)) (key, .exprs es) := by
  refine ⟨rfl, .exprs, hslot, ?_⟩
  rw [readPart, exprsOfJson, innerExprs_toJsonAll h]
  rfl

/-- What is read of a predicate or a projection. -/
def storedPart : Option Expr → Part
  | none => .absent
  | some e => .expr e

theorem reads_optional {p : Option Expr} (hslot : k.slot? key = some .optionalExpr)
    (h : ∀ c ∈ p.toList, Expr.ofJson true c.toJson = pure c) :
    k.Reads (key, toJsonOption p) (key, storedPart p) := by
  refine ⟨rfl, .optionalExpr, hslot, ?_⟩
  cases p with
  | none =>
      rw [toJsonOption]
      rfl
  | some c =>
      have hc := h c (by simp)
      have hpart : readPart c.toJson (Expr.ofJson true c.toJson) (exprsOfJson c.toJson)
          .optionalExpr = .expr <$> Expr.ofJson true c.toJson := by
        cases c <;> rw [toJson] <;> rfl
      rw [toJsonOption]
      dsimp only
      rw [hpart, hc]
      rfl

theorem reads_binding {b : Binding} (hslot : k.slot? key = some .binding)
    (hid : b.id < wordLimit) (hspan : b.span.Fits) : k.Reads (key, b.toJson) (key, .binding b) := by
  refine ⟨rfl, .binding, hslot, ?_⟩
  rw [readPart, Binding.ofJson_toJson hid hspan]
  rfl

/-- A constant. -/
theorem ofJson_literal {v : Literal} (inner : Bool) (h : (literal n v).OwnFits) :
    Expr.ofJson inner (literal n v).toJson = pure (literal n v) := by
  rw [toJson]
  cases v with
  | integer i =>
      have hread : readPlain? (.int i) .integer = some (.integer i) := by
        rw [readPlain?, if_pos (h.integer i rfl)]
      exact ofJson_nodeJson inner h.id h.span rfl (.cons (reads_plain rfl hread) .nil) rfl
  | float x => exact ofJson_nodeJson inner h.id h.span rfl (.cons (reads_plain rfl rfl) .nil) rfl
  | string s => exact ofJson_nodeJson inner h.id h.span rfl (.cons (reads_plain rfl rfl) .nil) rfl
  | boolean b => exact ofJson_nodeJson inner h.id h.span rfl (.cons (reads_plain rfl rfl) .nil) rfl
  | null => exact ofJson_nodeJson inner h.id h.span rfl .nil rfl

/-- An operation with one operand; which of two kinds it is of depends on where its operator is
written. -/
theorem ofJson_unary {op : UnaryOp} (inner : Bool) (h : (unary n op c).OwnFits)
    (hc : Expr.ofJson true c.toJson = pure c) :
    Expr.ofJson inner (unary n op c).toJson = pure (unary n op c) := by
  have hop : readPlain? (.string op.name) (.unary op.follows) = some (.unary op) := by
    rw [readPlain?, Json.case?, Option.bind_eq_bind, Option.bind_some, UnaryOp.ofName_name]
    rfl
  rw [toJson]
  cases hfollows : op.follows with
  | true =>
      rw [hfollows] at hop
      exact ofJson_nodeJson inner h.id h.span rfl
        (.cons (reads_plain rfl hop) (.cons (reads_expr rfl hc) .nil)) rfl
  | false =>
      rw [hfollows] at hop
      exact ofJson_nodeJson inner h.id h.span rfl
        (.cons (reads_plain rfl hop) (.cons (reads_expr rfl hc) .nil)) rfl

/-- **The stored form of an expression is read back.**  No id is drawn. -/
theorem ofJson_toJson (e : Expr) (h : e.Fits) (inner : Bool) :
    Expr.ofJson inner e.toJson = pure e := by
  induction e using children_induction generalizing inner with
  | node e ih =>
      have hown := h.own
      have hchild : ∀ c ∈ e.children, Expr.ofJson true c.toJson = pure c :=
        fun c hc => ih c hc (h.child hc) true
      cases e with
      | literal n v => exact ofJson_literal inner hown
      | unary n op c => exact ofJson_unary inner hown (hchild c (by simp [children]))
      | parameter n x =>
          rw [toJson]
          exact ofJson_nodeJson inner hown.id hown.span rfl (.cons (reads_plain rfl rfl) .nil) rfl
      | reference n x =>
          rw [toJson]
          exact ofJson_nodeJson inner hown.id hown.span rfl (.cons (reads_plain rfl rfl) .nil) rfl
      | countStar n =>
          rw [toJson]
          exact ofJson_nodeJson inner hown.id hown.span rfl .nil rfl
      | list n es =>
          rw [toJson]
          exact ofJson_nodeJson inner hown.id hown.span rfl (.cons (reads_exprs rfl hchild) .nil) rfl
      | property n m key =>
          have hm := hchild m (by simp [children])
          rw [toJson]
          exact ofJson_nodeJson inner hown.id hown.span rfl
            (.cons (reads_expr rfl hm) (.cons (reads_plain rfl rfl) .nil)) rfl
      | binary n op l r =>
          have hl := hchild l (by simp [children])
          have hr := hchild r (by simp [children])
          have hop : readPlain? (.string op.name) .binary = some (.binary op) := by
            rw [readPlain?, Json.case?, Option.bind_eq_bind, Option.bind_some, BinaryOp.ofName_name]
            rfl
          rw [toJson]
          exact ofJson_nodeJson inner hown.id hown.span rfl
            (.cons (reads_plain rfl hop) (.cons (reads_expr rfl hl) (.cons (reads_expr rfl hr) .nil)))
            rfl
      | call n f distinct es =>
          rw [toJson]
          exact ofJson_nodeJson inner hown.id hown.span rfl
            (.cons (reads_plain rfl rfl)
              (.cons (reads_plain rfl rfl) (.cons (reads_exprs rfl hchild) .nil))) rfl
      | comprehension n b s p q =>
          obtain ⟨hid, hspan⟩ := hown.bound b rfl
          have hs := hchild s (by simp [children])
          have hp : ∀ c ∈ p.toList, Expr.ofJson true c.toJson = pure c :=
            fun c hc => hchild c (List.mem_cons_of_mem _ (List.mem_append_left _ hc))
          have hq : ∀ c ∈ q.toList, Expr.ofJson true c.toJson = pure c :=
            fun c hc => hchild c (List.mem_cons_of_mem _ (List.mem_append_right _ hc))
          rw [toJson]
          refine ofJson_nodeJson inner hown.id hown.span rfl
            (.cons (reads_binding rfl hid hspan) (.cons (reads_expr rfl hs)
              (.cons (reads_optional rfl hp) (.cons (reads_optional rfl hq) .nil)))) ?_
          cases p <;> cases q <;> rfl
      | quantified n k b s p =>
          obtain ⟨hid, hspan⟩ := hown.bound b rfl
          have hs := hchild s (by simp [children])
          have hp : ∀ c ∈ p.toList, Expr.ofJson true c.toJson = pure c :=
            fun c hc => hchild c (List.mem_cons_of_mem _ hc)
          have hk : readPlain? (.string k.name) .quantifier = some (.quantifier k) := by
            rw [readPlain?, Json.case?, Option.bind_eq_bind, Option.bind_some, Quantifier.ofName_name]
            rfl
          rw [toJson]
          refine ofJson_nodeJson inner hown.id hown.span rfl
            (.cons (reads_plain rfl hk) (.cons (reads_binding rfl hid hspan)
              (.cons (reads_expr rfl hs) (.cons (reads_optional rfl hp) .nil)))) ?_
          cases p <;> rfl

/-! ### The text of an expression -/

/-- A stored node is readable if its own fields are. -/
theorem readable_nodeJson {own : List (String × Json)} (hid : n.id < wordLimit)
    (hspan : n.span.Fits) (hown : ∀ f ∈ own, f.2.Readable) : (nodeJson k n own).Readable := by
  rw [nodeJson, Json.readable_object]
  intro f hf
  rcases List.mem_cons.mp hf with rfl | hf
  · exact Json.readable_string _
  rcases List.mem_cons.mp hf with rfl | hf
  · exact Json.readable_ofNat hid
  rcases List.mem_cons.mp hf with rfl | hf
  · exact hspan.readable
  · exact hown f hf

theorem readable_binding {b : Binding} (hid : b.id < wordLimit) (hspan : b.span.Fits) :
    b.toJson.Readable := by
  have hnat := Json.readable_ofNat hid
  have hposition := hspan.readable
  simp [Binding.toJson, hnat, hposition]

/-- The stored form of an expression is readable. -/
theorem readable_toJson (e : Expr) (h : e.Fits) (hfloats : e.FloatsReadBack) :
    e.toJson.Readable := by
  induction e using children_induction with
  | node e ih =>
      have hown := h.own
      have hchild : ∀ c ∈ e.children, c.toJson.Readable :=
        fun c hc => ih c hc (h.child hc) (hfloats.child hc)
      have hall : ∀ es : List Expr, (∀ c ∈ es, c ∈ e.children) →
          (Json.array (toJsonAll es)).Readable := by
        intro es hes
        rw [Json.readable_array, toJsonAll_eq]
        intro v hv
        obtain ⟨c, hc, rfl⟩ := List.mem_map.mp hv
        exact hchild c (hes c hc)
      have hmaybe : ∀ p : Option Expr, (∀ c ∈ p.toList, c ∈ e.children) →
          (toJsonOption p).Readable := by
        intro p hp
        cases p with
        | none => exact Json.readable_null
        | some c => exact hchild c (hp c (by simp))
      cases e with
      | literal n v =>
          refine readable_nodeJson hown.id hown.span ?_
          cases v with
          | integer i =>
              obtain ⟨hlow, hhigh⟩ := hown.integer i rfl
              have hint : (Json.int i).Readable := ⟨hlow, by omega⟩
              simp [Literal.valueField, hint]
          | float x =>
              have hx : (Json.real x).Readable := hfloats _ (mem_nodes_self _) x rfl
              simp [Literal.valueField, hx]
          | _ => simp [Literal.valueField]
      | list n es =>
          have hes := hall es fun _ h => h
          exact readable_nodeJson hown.id hown.span (by simpa using hes)
      | call n f distinct es =>
          have hes := hall es fun _ h => h
          exact readable_nodeJson hown.id hown.span (by simpa using hes)
      | property n m key =>
          have hm := hchild m (by simp [children])
          exact readable_nodeJson hown.id hown.span (by simp [hm])
      | unary n op c =>
          have hc := hchild c (by simp [children])
          exact readable_nodeJson hown.id hown.span (by simp [hc])
      | binary n op l r =>
          have hl := hchild l (by simp [children])
          have hr := hchild r (by simp [children])
          exact readable_nodeJson hown.id hown.span (by simp [hl, hr])
      | comprehension n b s p q =>
          obtain ⟨hid, hspan⟩ := hown.bound b rfl
          have hb := readable_binding hid hspan
          have hs := hchild s (by simp [children])
          have hp := hmaybe p fun c hc => by simp [children, Option.mem_toList.mp hc]
          have hq := hmaybe q fun c hc => by simp [children, Option.mem_toList.mp hc]
          exact readable_nodeJson hown.id hown.span (by simp [hb, hs, hp, hq])
      | quantified n k b s p =>
          obtain ⟨hid, hspan⟩ := hown.bound b rfl
          have hb := readable_binding hid hspan
          have hs := hchild s (by simp [children])
          have hp := hmaybe p fun c hc => by simp [children, Option.mem_toList.mp hc]
          exact readable_nodeJson hown.id hown.span (by simp [hb, hs, hp])
      | _ => exact readable_nodeJson hown.id hown.span (by simp)

/-- **An expression is read back from its text**, with all its ids and spans and all that is missing
in it, if the text is not nested too deeply.  No id is drawn, so the next one stays what it is. -/
theorem read_stored {e : Expr} (hfits : e.Fits) (hfloats : e.FloatsReadBack)
    (hdepth : e.toJson.depth ≤ Json.nestingLimit) (next : NodeId) :
    Expr.read e.toJson.render next = some (e, next) := by
  have hvalue := Json.readStrict_render (readable_toJson e hfits hfloats) hdepth
  rw [Expr.read, hvalue, Draw.lift_some, pure_bind, ofJson_toJson e hfits false]
  rfl

/-- A comprehension without a predicate, with numbers at the ends of their ranges and with strings
that need every kind of escape. -/
theorem read_stored_comprehension :
    let n := fun i : NodeId => (⟨i, ⟨3, 9, 1, 0xffffffffffffffff⟩⟩ : Node)
    let e := comprehension (n 0xffffffffffffffff) ⟨2, .unknown, "x\ty"⟩
      (list (n 3) [literal (n 4) (.float ⟨true, 0x4004000000000000⟩),
        literal (n 5) (.integer (-0x8000000000000000)),
        literal (n 6) (.string "\"\\\x07\x1f é")])
      none (some (unary (n 7) .isNull (reference (n 8) "x\ty")))
    e.Fits ∧ e.FloatsReadBack ∧ e.toJson.depth ≤ Json.nestingLimit ∧
      Expr.read e.toJson.render 40 = some (e, 40) := by
  intro n e
  have hfits : e.Fits := by decide +kernel
  have hfloats : e.FloatsReadBack := by decide +kernel
  have hdepth : e.toJson.depth ≤ Json.nestingLimit := by decide +kernel
  exact ⟨hfits, hfloats, hdepth, read_stored hfits hfloats hdepth 40⟩

end Expr
end QueryTyping
