/-!
# Tables

A table holds at most one value for each key.

Main statement: `get_set` says what setting a value changes.
-/

namespace QueryTyping

/-- Values by key. -/
structure Table (κ β : Type) where
  entries : List (κ × β)

namespace Table

variable {κ β : Type} [DecidableEq κ]

/-- The table without values. -/
def empty : Table κ β := ⟨[]⟩

instance : Inhabited (Table κ β) := ⟨empty⟩

/-- The value of a key. -/
def get? (t : Table κ β) (k : κ) : Option β := (t.entries.find? (·.1 = k)).map (·.2)

/-- Set the value of a key. -/
def set (t : Table κ β) (k : κ) (v : β) : Table κ β :=
  ⟨(k, v) :: t.entries.filter (·.1 ≠ k)⟩

@[simp] theorem get_empty (k : κ) : (empty : Table κ β).get? k = none := rfl

@[simp] theorem get_set (t : Table κ β) (k j : κ) (v : β) :
    (t.set k v).get? j = if j = k then some v else t.get? j := by
  by_cases h : j = k
  · subst h
    simp [set, get?]
  · have hk : ¬ k = j := fun e => h e.symm
    simp only [set, get?, List.find?_cons, hk, decide_false, h, if_false, List.find?_filter]
    congr 2
    funext e
    by_cases he : e.1 = j
    · simp [he, h]
    · simp [he]

end Table
end QueryTyping
