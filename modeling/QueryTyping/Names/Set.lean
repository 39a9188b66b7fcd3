import QueryTyping.Order.Increasing

/-!
# Sets of names

A set of names in alphabetical order, each once.

Main statements: `mem_insert` and `mem_ofList` say which names are in, and `ext` that sets with
the same names are equal.
-/

namespace QueryTyping

/-- A finite set of names. -/
structure NameSet where
  toList : List String
  increasing : Increasing toList

namespace NameSet

/-- No names. -/
def empty : NameSet := ⟨[], increasing_nil⟩

/-- One more name. -/
def insert (s : NameSet) (x : String) : NameSet := ⟨place x s.toList, increasing_place x s.increasing⟩

/-- The names of a list. -/
def ofList (xs : List String) : NameSet := ⟨arrange xs, increasing_arrange xs⟩

/-- The names of both sets. -/
def union (s t : NameSet) : NameSet := t.toList.foldl insert s

/-- Whether a name is in. -/
def contains (s : NameSet) (x : String) : Bool := s.toList.contains x

instance : Membership String NameSet := ⟨fun s x => x ∈ s.toList⟩
instance : EmptyCollection NameSet := ⟨empty⟩
instance : Inhabited NameSet := ⟨empty⟩

instance (x : String) (s : NameSet) : Decidable (x ∈ s) :=
  inferInstanceAs (Decidable (x ∈ s.toList))

theorem mem_def {x : String} {s : NameSet} : x ∈ s ↔ x ∈ s.toList := Iff.rfl

@[simp] theorem not_mem_empty (x : String) : x ∉ empty := List.not_mem_nil

@[simp] theorem mem_insert {x y : String} {s : NameSet} : y ∈ s.insert x ↔ y = x ∨ y ∈ s :=
  mem_place

@[simp] theorem mem_ofList {x : String} {xs : List String} : x ∈ ofList xs ↔ x ∈ xs :=
  mem_arrange

@[simp] theorem mem_union {x : String} {s t : NameSet} : x ∈ s.union t ↔ x ∈ s ∨ x ∈ t := by
  have key : ∀ (ys : List String) (s : NameSet),
      x ∈ ys.foldl insert s ↔ x ∈ s ∨ x ∈ ys := by
    intro ys
    induction ys with
    | nil => simp
    | cons y ys ih => intro s; rw [List.foldl_cons, ih, mem_insert, List.mem_cons]; grind
  exact key t.toList s

/-- Sets with the same names are equal. -/
theorem ext {s t : NameSet} (h : ∀ x, x ∈ s ↔ x ∈ t) : s = t := by
  obtain ⟨xs, hs⟩ := s
  obtain ⟨ys, ht⟩ := t
  have : xs = ys := hs.eq_of_mem_iff ht h
  subst this
  rfl

end NameSet
end QueryTyping
