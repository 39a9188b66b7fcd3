import QueryTyping.Document

/-!
# Documents with other ids

A stored document may give ids to nodes and bindings.  Where a value stands in a document decides
which numbers in it are ids: a node that is stored as an object has a field for its id, which may be
left off, and one that is stored as an array has its id after its kind.

Main statements: `filter_reid` says what has become of the fields of one name, and `ofFields_reid`
that the kind of a node stays.
-/

namespace QueryTyping

/-- What a value in a document stands for. -/
inductive Role where
  | document
  | nodes
  | node
  | binding
  | id
  | other
  deriving DecidableEq, Repr

/-- What the field of a node stands for. -/
def Slot.role : Slot → Role
  | .id => .id
  | .binding => .binding
  | .expr | .optionalExpr => .node
  | .exprs => .nodes
  | .span | .integer | .float | .text | .flag | .unary _ | .binary | .quantifier => .other

/-- What the fields of a node stand for, in their order. -/
def Kind.roles (k : Kind) : List (String × Role) := k.fields.map fun f => (f.1, f.2.role)

/-- What the fields of a binding stand for, in their order. -/
def Binding.roles : List (String × Role) := [("id", .id), ("span", .other), ("name", .other)]

/-- What the fields of a document stand for, in their order. -/
def Document.roles : List (String × Role) :=
  [("source", .other), ("variables", .other), ("expressions", .nodes)]

namespace Json

/-- What the field of this name stands for. -/
def roleOf (roles : List (String × Role)) (key : String) : Role := (roles.lookup key).getD .other

mutual

/-- The second value is the first one with some of its ids replaced or left off. -/
inductive Reid : Role → Json → Json → Prop
  | same (role : Role) (v : Json) : Reid role v v
  | id (v : Json) {n : NodeId} : n < wordLimit → Reid .id v (.ofNat n)
  | binding {fs gs : List (String × Json)} :
      ReidFields Binding.roles fs gs → Reid .binding (.object fs) (.object gs)
  | bindingItems {vs ws : List Json} :
      ReidItems (Binding.roles.map (·.2)) vs ws → Reid .binding (.array vs) (.array ws)
  | node {k : Kind} {fs gs : List (String × Json)} :
      Kind.ofFields? true fs = some k → ReidFields k.roles fs gs →
        Reid .node (.object fs) (.object gs)
  | nodeItems {k : Kind} {tag : Json} {vs ws : List Json} :
      Kind.ofTag? true tag = some k → ReidItems (k.roles.map (·.2)) vs ws →
        Reid .node (.array (tag :: vs)) (.array (tag :: ws))
  | nodes {vs ws : List Json} :
      ReidItems (vs.map fun _ => .node) vs ws → Reid .nodes (.array vs) (.array ws)
  | document {fs gs : List (String × Json)} :
      ReidFields Document.roles fs gs → Reid .document (.object fs) (.object gs)
  | documentItems {vs ws : List Json} :
      ReidItems (Document.roles.map (·.2)) vs ws → Reid .document (.array vs) (.array ws)

/-- The same for the fields of an object, of which those with an id may be left off. -/
inductive ReidFields : List (String × Role) → List (String × Json) → List (String × Json) → Prop
  | nil (roles : List (String × Role)) : ReidFields roles [] []
  | cons {roles : List (String × Role)} {key : String} {v w : Json} {fs gs : List (String × Json)} :
      Reid (roleOf roles key) v w → ReidFields roles fs gs →
        ReidFields roles ((key, v) :: fs) ((key, w) :: gs)
  | leave {roles : List (String × Role)} {v : Json} {fs gs : List (String × Json)} :
      ReidFields roles fs gs → ReidFields roles (("id", v) :: fs) gs

/-- The same for the items of an array; those beyond its fields stay. -/
inductive ReidItems : List Role → List Json → List Json → Prop
  | nil (roles : List Role) : ReidItems roles [] []
  | beyond (v : Json) (vs : List Json) : ReidItems [] (v :: vs) (v :: vs)
  | cons {role : Role} {roles : List Role} {v w : Json} {vs ws : List Json} :
      Reid role v w → ReidItems roles vs ws → ReidItems (role :: roles) (v :: vs) (w :: ws)

end

theorem ReidFields.same (roles : List (String × Role)) (fs : List (String × Json)) :
    ReidFields roles fs fs := by
  induction fs with
  | nil => exact .nil roles
  | cons f fs ih => exact .cons (.same _ f.2) ih

theorem ReidItems.same (roles : List Role) (vs : List Json) : ReidItems roles vs vs := by
  induction vs generalizing roles with
  | nil => exact .nil roles
  | cons v vs ih =>
      cases roles with
      | nil => exact .beyond v vs
      | cons role roles => exact .cons (.same role v) (ih roles)

theorem ReidItems.eq_nil {roles : List Role} {ws : List Json} (h : ReidItems roles [] ws) :
    ws = [] := by
  cases h
  rfl

/-- Values without ids stay. -/
theorem Reid.eq_of_other {v w : Json} (h : Reid .other v w) : w = v := by
  cases h
  rfl

/-- A valid id stays valid. -/
theorem Reid.isSome_nat {v w : Json} (h : Reid .id v w) (hv : (v.nat? wordLimit).isSome = true) :
    (w.nat? wordLimit).isSome = true := by
  cases h with
  | same => exact hv
  | id v hn => rw [nat_ofNat hn]; rfl

/-- No field gets a new name. -/
theorem mem_keys_of_reidFields {roles : List (String × Role)} {fs gs : List (String × Json)}
    (h : ReidFields roles fs gs) {g : String × Json} (hg : g ∈ gs) : ∃ f ∈ fs, f.1 = g.1 := by
  induction fs generalizing gs with
  | nil => cases h; cases hg
  | cons f fs ih =>
      cases h with
      | cons _ hrest =>
          rcases List.mem_cons.mp hg with rfl | hg
          · exact ⟨_, List.mem_cons_self, rfl⟩
          · obtain ⟨f', hf, hkey⟩ := ih hrest hg
            exact ⟨f', List.mem_cons_of_mem _ hf, hkey⟩
      | leave hrest =>
          obtain ⟨f', hf, hkey⟩ := ih hrest hg
          exact ⟨f', List.mem_cons_of_mem _ hf, hkey⟩

/-- The fields of one name, if there is at most one. -/
theorem filter_reid {roles : List (String × Role)} {fs gs : List (String × Json)}
    (h : ReidFields roles fs gs) (key : String) :
    (fs.filter (·.1 == key) = [] → gs.filter (·.1 == key) = []) ∧
      ∀ f, fs.filter (·.1 == key) = [f] →
        (key = "id" ∧ gs.filter (·.1 == key) = []) ∨
          ∃ g, gs.filter (·.1 == key) = [g] ∧ Reid (roleOf roles key) f.2 g.2 := by
  induction fs generalizing gs with
  | nil => cases h; exact ⟨fun _ => rfl, fun f hf => by cases hf⟩
  | cons f fs ih =>
      cases h with
      | @cons _ name v w _ gs hv hrest =>
          obtain ⟨hnone, hone⟩ := ih hrest
          by_cases hkey : name = key
          · subst hkey
            simp only [List.filter_cons, beq_self_eq_true, if_true]
            refine ⟨fun hf => by (cases hf), fun f hf => Or.inr ⟨(name, w), ?_, ?_⟩⟩
            · rw [hnone (List.cons.inj hf).2]
            · rw [← (List.cons.inj hf).1]
              exact hv
          · have hne : (name == key) = false := by simp [hkey]
            simp only [List.filter_cons, hne, Bool.false_eq_true, if_false]
            exact ⟨hnone, hone⟩
      | @leave _ v _ _ hrest =>
          obtain ⟨hnone, hone⟩ := ih hrest
          by_cases hkey : "id" = key
          · subst hkey
            simp only [List.filter_cons, beq_self_eq_true, if_true]
            refine ⟨fun hf => by (cases hf), fun f hf => Or.inl ⟨trivial, ?_⟩⟩
            exact hnone (List.cons.inj hf).2
          · have hne : ("id" == key) = false := by simp [hkey]
            simp only [List.filter_cons, hne, Bool.false_eq_true, if_false]
            exact ⟨hnone, hone⟩

/-- The kind of a node stays. -/
theorem ofFields_reid {k : Kind} {fs gs : List (String × Json)} (h : ReidFields k.roles fs gs)
    {inner : Bool} {kind : Kind} (hkind : Kind.ofFields? inner fs = some kind) :
    Kind.ofFields? inner gs = some kind := by
  have hrole : roleOf k.roles "type" = .other := by cases k <;> rfl
  obtain ⟨-, hone⟩ := filter_reid h "type"
  unfold Kind.ofFields? at hkind ⊢
  split at hkind
  · rename_i name v hfilter
    rcases hone _ hfilter with ⟨hid, -⟩ | ⟨g, hg, hsame⟩
    · exact absurd hid (by decide)
    · rw [hrole] at hsame
      have hv : g.2 = v := hsame.eq_of_other
      rw [hg, ← hkind, ← hv]
  · cases hkind

end Json
end QueryTyping
