import QueryTyping.Proofs.Reading.Document

/-!
# Texts that give no ids

A text gives no ids if there are none in it to replace or to leave off.

Main statements: `Idless.fields` and `Idless.items` say so for the parts of a node,
`record_idless_binding` that a binding gives no id for itself, and `record_idless_document` that the
expressions of a document give none.
-/

namespace QueryTyping

namespace Json

/-- The value gives no id: there is none to replace or to leave off. -/
def Idless (role : Role) (v : Json) : Prop := ∀ w, Reid role v w → w = v

/-- The same for the fields of an object. -/
def IdlessFields (roles : List (String × Role)) (fs : List (String × Json)) : Prop :=
  ∀ gs, ReidFields roles fs gs → gs = fs

/-- The same for the items of an array. -/
def IdlessItems (roles : List Role) (vs : List Json) : Prop := ∀ ws, ReidItems roles vs ws → ws = vs

/-- Any id can be replaced. -/
theorem not_idless_id (v : Json) : ¬Idless .id v := by
  intro h
  have hzero : ofNat 0 = v := h _ (.id v (by decide))
  have hone : ofNat 1 = v := h _ (.id v (by decide))
  rw [← hone] at hzero
  cases hzero

section

variable {roles : List (String × Role)} {fs : List (String × Json)} {v : Json} {vs : List Json}

/-- A field without ids is no field of an id, which could be left off. -/
theorem IdlessFields.head {key : String} (h : IdlessFields roles ((key, v) :: fs)) :
    key ≠ "id" ∧ Idless (roleOf roles key) v := by
  constructor
  · rintro rfl
    have hlength := congrArg List.length (h fs (.leave (.same roles fs)))
    rw [List.length_cons] at hlength
    omega
  · intro w hw
    have hcons := h _ (.cons hw (.same roles fs))
    exact (Prod.mk.inj (List.cons.inj hcons).1).2

theorem IdlessFields.tail {key : String} (h : IdlessFields roles ((key, v) :: fs)) :
    IdlessFields roles fs :=
  fun _ hgs => (List.cons.inj (h _ (.cons (.same _ v) hgs))).2

theorem IdlessFields.of_mem (h : IdlessFields roles fs) {f : String × Json} (hf : f ∈ fs) :
    f.1 ≠ "id" ∧ Idless (roleOf roles f.1) f.2 := by
  induction fs with
  | nil => cases hf
  | cons g fs ih =>
      rcases List.mem_cons.mp hf with rfl | hf
      · exact h.head
      · exact ih h.tail hf

theorem IdlessItems.head {role : Role} {roles : List Role} (h : IdlessItems (role :: roles) (v :: vs)) :
    Idless role v :=
  fun _ hw => (List.cons.inj (h _ (.cons hw (.same roles vs)))).1

theorem IdlessItems.tail {role : Role} {roles : List Role} (h : IdlessItems (role :: roles) (v :: vs)) :
    IdlessItems roles vs :=
  fun _ hws => (List.cons.inj (h _ (.cons (.same role v) hws))).2

theorem Idless.fields (h : Idless .node (.object fs)) {k : Kind}
    (hk : Kind.ofFields? true fs = some k) : IdlessFields k.roles fs :=
  fun _ hgs => Json.object.inj (h _ (.node hk hgs))

/-- A node that is stored as an array has its id first, so without it there is nothing. -/
theorem Idless.items {tag : Json} (h : Idless .node (.array (tag :: vs))) {k : Kind}
    (hk : Kind.ofTag? true tag = some k) : vs = [] := by
  cases vs with
  | nil => rfl
  | cons v vs =>
      have hitems : IdlessItems (k.roles.map (·.2)) (v :: vs) :=
        fun _ hws => (List.cons.inj (Json.array.inj (h _ (.nodeItems hk hws)))).2
      exact absurd hitems.head (not_idless_id v)

theorem Idless.nodes (h : Idless .nodes (.array vs)) : IdlessItems (vs.map fun _ => .node) vs :=
  fun _ hws => Json.array.inj (h _ (.nodes hws))

theorem single_of_no_field {key : String} (h : ∀ f ∈ fs, f.1 ≠ key) : single? fs key = some none := by
  have hfilter : fs.filter (·.1 == key) = [] :=
    List.filter_eq_nil_iff.mpr fun f hf => by simpa using h f hf
  rw [single?, hfilter]

theorem mem_of_single {key : String} (h : single? fs key = some (some v)) : (key, v) ∈ fs := by
  unfold single? at h
  split at h
  · cases h
  · rename_i f hfilter
    cases h
    have hf : f ∈ fs.filter (·.1 == key) := by rw [hfilter]; exact List.mem_singleton_self f
    obtain ⟨hmem, hkey⟩ := List.mem_filter.mp hf
    rw [← eq_of_beq hkey]
    exact hmem
  · cases h

/-- A binding without ids gives none for itself. -/
theorem record_idless_binding (h : Idless .binding v) {o span : Option Json} {name : Json}
    (hv : v.record? false ["id", "span", "name"] = some [o, span, some name]) : o = none := by
  cases v with
  | object fs =>
      have hfields : IdlessFields Binding.roles fs := fun _ hgs => Json.object.inj (h _ (.binding hgs))
      have hid : single? fs "id" = some none := single_of_no_field fun f hf => (hfields.of_mem hf).1
      rw [record_object, Bool.false_and, if_neg Bool.false_ne_true] at hv
      simp only [List.mapM_cons, List.mapM_nil, Option.bind_eq_bind, Option.bind_eq_some_iff,
        Option.pure_def, Option.some.injEq, hid] at hv
      obtain ⟨_, rfl, _, -, hlist⟩ := hv
      exact (List.cons.inj hlist).1.symm
  | array vs =>
      cases vs with
      | nil => cases hv
      | cons v vs =>
          have hitems : IdlessItems (Binding.roles.map (·.2)) (v :: vs) :=
            fun _ hws => Json.array.inj (h _ (.bindingItems hws))
          exact absurd hitems.head (not_idless_id v)
  | _ => cases hv

/-- The expressions of a document without ids give none. -/
theorem record_idless_document (h : Idless .document v) {source vars : Option Json} {es : List Json}
    (hv : v.record? true ["source", "variables", "expressions"] =
      some [source, vars, some (.array es)]) : IdlessItems (es.map fun _ => .node) es := by
  cases v with
  | object fs =>
      have hfields : IdlessFields Document.roles fs :=
        fun _ hgs => Json.object.inj (h _ (.document hgs))
      rw [record_object] at hv
      split at hv
      · cases hv
      · simp only [List.mapM_cons, List.mapM_nil, Option.bind_eq_bind, Option.bind_eq_some_iff,
          Option.pure_def, Option.some.injEq] at hv
        obtain ⟨_, -, _, ⟨_, -, _, ⟨_, hes, _, rfl, rfl⟩, rfl⟩, hlist⟩ := hv
        cases hlist
        exact (hfields.of_mem (mem_of_single hes)).2.nodes
  | array vs =>
      rcases vs with _ | ⟨a, _ | ⟨b, _ | ⟨c, _ | ⟨d, vs⟩⟩⟩⟩ <;> simp [record?] at hv
      obtain ⟨rfl, rfl, rfl⟩ := hv
      have hitems : IdlessItems (Document.roles.map (·.2)) [a, b, .array es] :=
        fun _ hws => Json.array.inj (h _ (.documentItems hws))
      exact hitems.tail.tail.head.nodes
  | _ => cases hv

end

end Json

end QueryTyping
