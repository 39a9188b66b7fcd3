import QueryTyping.Order.Increasing

/-!
# Values by name

A finite assignment of values to names, kept in alphabetical order of the names.

Main statements: `get_insert` says what an insertion changes, `get_extend` what a map on top of
another one does, and `keys_increasing` that the names stand in order, each once.
-/

namespace QueryTyping

variable {β : Type}

/-- Set the value of a name in an ordered list of entries. -/
def placeEntry (x : String) (v : β) : List (String × β) → List (String × β)
  | [] => [(x, v)]
  | (y, w) :: rest =>
      if x < y then (x, v) :: (y, w) :: rest
      else if y < x then (y, w) :: placeEntry x v rest
      else (x, v) :: rest

theorem keys_placeEntry (x : String) (v : β) (l : List (String × β)) :
    (placeEntry x v l).map (·.1) = place x (l.map (·.1)) := by
  induction l with
  | nil => rfl
  | cons e l ih =>
      obtain ⟨y, w⟩ := e
      rw [placeEntry, List.map_cons, place]
      split
      · rfl
      · split
        · rw [List.map_cons, ih]
        · have hxy : x = y := StrictlyOrdered.connected ‹_› ‹_›
          subst hxy
          rfl

/-- Values by name. -/
structure NameMap (β : Type) where
  entries : List (String × β)
  keys_increasing : Increasing (entries.map (·.1))

namespace NameMap

/-- No names. -/
def empty : NameMap β := ⟨[], increasing_nil⟩

instance : Inhabited (NameMap β) := ⟨empty⟩

/-- Set the value of a name; an earlier value is replaced. -/
def insert (m : NameMap β) (x : String) (v : β) : NameMap β :=
  ⟨placeEntry x v m.entries, by
    rw [keys_placeEntry]; exact increasing_place x m.keys_increasing⟩

/-- The value of a name. -/
def get? (m : NameMap β) (x : String) : Option β := (m.entries.find? (·.1 == x)).map (·.2)

/-- The names that have a value, in order. -/
def keys (m : NameMap β) : List String := m.entries.map (·.1)

/-- The entries of the second map on top of the first. -/
def extend (m n : NameMap β) : NameMap β := n.entries.foldl (fun m e => m.insert e.1 e.2) m

/-- The map of a list of entries; a later one replaces an earlier one of the same name. -/
def ofList (entries : List (String × β)) : NameMap β :=
  entries.foldl (fun m e => m.insert e.1 e.2) empty

@[simp] theorem get_insert (m : NameMap β) (x y : String) (v : β) :
    (m.insert x v).get? y = if y = x then some v else m.get? y := by
  obtain ⟨l, hl⟩ := m
  simp only [get?, insert]
  induction l with
  | nil => by_cases h : x = y <;> simp [placeEntry, h, Ne.symm]
  | cons e l ih =>
      obtain ⟨z, w⟩ := e
      rw [placeEntry]
      split
      · by_cases h : x = y <;> simp [h, Ne.symm]
      · split
        · have hl' := (List.pairwise_cons.mp hl).2
          by_cases h : z = y
          · subst h
            have : z ≠ x := by rintro rfl; exact absurd ‹_› (String.lt_irrefl z)
            simp [this]
          · rw [List.find?_cons_of_neg (by simpa using h), List.find?_cons_of_neg (by simpa using h)]
            exact ih hl'
        · have hxz : x = z := StrictlyOrdered.connected ‹_› ‹_›
          subst hxz
          by_cases h : x = y <;> simp [h, Ne.symm]

theorem mem_keys_iff {m : NameMap β} {x : String} : x ∈ m.keys ↔ (m.get? x).isSome = true := by
  simp [keys, get?]

/-- **One map on top of another.**  A name has the value that the upper map gives it, and if it gives
none, the value of the lower one. -/
theorem get_extend (m n : NameMap β) (x : String) :
    (m.extend n).get? x = (n.get? x).or (m.get? x) := by
  obtain ⟨l, hl⟩ := n
  induction l generalizing m with
  | nil => rfl
  | cons e l ih =>
      obtain ⟨y, v⟩ := e
      have hlater := (List.pairwise_cons.mp hl).1
      have hl' : Increasing (l.map (·.1)) := (List.pairwise_cons.mp hl).2
      have hextend : m.extend ⟨(y, v) :: l, hl⟩ = (m.insert y v).extend ⟨l, hl'⟩ := rfl
      rw [hextend, ih, get_insert]
      by_cases h : x = y
      · subst h
        have hnone : get? ⟨l, hl'⟩ x = none := by
          rw [← Option.not_isSome_iff_eq_none, ← mem_keys_iff]
          exact fun hx => String.lt_irrefl x (hlater x hx)
        rw [hnone]
        simp [get?]
      · have hne : y ≠ x := fun heq => h heq.symm
        simp [get?, h, hne]

end NameMap
end QueryTyping
