/-!
# Increasing lists

A finite set over a strictly ordered type is kept as the one list of its members that grows at
every step.  Two such lists with the same members are the same list, so a set has a single form
and equality of sets is equality of lists.

Main statements: `mem_place` and `mem_arrange` say which members the two operations give,
`increasing_place` and `increasing_arrange` that their results are increasing, and
`Increasing.eq_of_mem_iff` that the members determine the list.
-/

namespace QueryTyping

/-- A strict order in which any two different members are comparable. -/
class StrictlyOrdered (α : Type) [LT α] : Prop where
  irrefl : ∀ a : α, ¬ a < a
  trans : ∀ {a b c : α}, a < b → b < c → a < c
  connected : ∀ {a b : α}, ¬ a < b → ¬ b < a → a = b

instance : StrictlyOrdered Nat where
  irrefl := Nat.lt_irrefl
  trans := Nat.lt_trans
  connected := by omega

instance : StrictlyOrdered String where
  irrefl := String.lt_irrefl
  trans := String.lt_trans
  connected := fun hab hba =>
    String.le_antisymm (String.not_lt.mp hba) (String.not_lt.mp hab)

variable {α : Type} [LT α]

/-- Every member comes before all later ones. -/
def Increasing (l : List α) : Prop := l.Pairwise (· < ·)

instance [DecidableLT α] (l : List α) : Decidable (Increasing l) :=
  inferInstanceAs (Decidable (l.Pairwise (· < ·)))

theorem increasing_nil : Increasing ([] : List α) := List.Pairwise.nil

variable [DecidableLT α]

/-- Put `a` at its place in an increasing list; a list that holds `a` already is unchanged. -/
def place (a : α) : List α → List α
  | [] => [a]
  | b :: l => if a < b then a :: b :: l else if b < a then b :: place a l else b :: l

/-- The increasing list of the members of a list. -/
def arrange (l : List α) : List α := l.foldr place []

@[simp] theorem arrange_nil : arrange ([] : List α) = [] := rfl

@[simp] theorem arrange_cons (a : α) (l : List α) : arrange (a :: l) = place a (arrange l) := rfl

variable [StrictlyOrdered α]

@[simp] theorem mem_place {a x : α} {l : List α} : x ∈ place a l ↔ x = a ∨ x ∈ l := by
  induction l with
  | nil => simp [place]
  | cons b l ih =>
      rw [place]
      split
      · simp
      · split
        · simp only [List.mem_cons, ih]; grind
        · have hab : a = b := StrictlyOrdered.connected ‹_› ‹_›
          subst hab
          simp

@[simp] theorem mem_arrange {x : α} {l : List α} : x ∈ arrange l ↔ x ∈ l := by
  induction l with
  | nil => simp
  | cons a l ih => simp [ih]

theorem increasing_place (a : α) {l : List α} (h : Increasing l) : Increasing (place a l) := by
  induction l with
  | nil => simp [place, Increasing]
  | cons b l ih =>
      obtain ⟨hb, hl⟩ := List.pairwise_cons.mp h
      rw [place]
      split
      · rename_i hab
        refine List.pairwise_cons.mpr ⟨fun x hx => ?_, h⟩
        rcases List.mem_cons.mp hx with rfl | hx
        · exact hab
        · exact StrictlyOrdered.trans hab (hb x hx)
      · split
        · rename_i hba
          refine List.pairwise_cons.mpr ⟨fun x hx => ?_, ih hl⟩
          rcases mem_place.mp hx with rfl | hx
          · exact hba
          · exact hb x hx
        · exact h

theorem increasing_arrange (l : List α) : Increasing (arrange l) := by
  induction l with
  | nil => exact increasing_nil
  | cons a l ih => exact increasing_place a ih

omit [DecidableLT α] in
/-- **One form.**  Increasing lists with the same members are equal. -/
theorem Increasing.eq_of_mem_iff {l m : List α} (hl : Increasing l) (hm : Increasing m)
    (h : ∀ x, x ∈ l ↔ x ∈ m) : l = m := by
  induction l generalizing m with
  | nil =>
      cases m with
      | nil => rfl
      | cons b m => exact absurd ((h b).mpr (by simp)) (by simp)
  | cons a l ih =>
      cases m with
      | nil => exact absurd ((h a).mp (by simp)) (by simp)
      | cons b m =>
          obtain ⟨ha, hl'⟩ := List.pairwise_cons.mp hl
          obtain ⟨hb, hm'⟩ := List.pairwise_cons.mp hm
          have hab : a = b := by
            rcases List.mem_cons.mp ((h a).mp (by simp)) with hab | ham
            · exact hab
            · rcases List.mem_cons.mp ((h b).mpr (by simp)) with hba | hbl
              · exact hba.symm
              · exact absurd (StrictlyOrdered.trans (ha b hbl) (hb a ham))
                  (StrictlyOrdered.irrefl a)
          subst hab
          congr 1
          refine ih hl' hm' fun x => ⟨fun hx => ?_, fun hx => ?_⟩
          · rcases List.mem_cons.mp ((h x).mp (List.mem_cons_of_mem _ hx)) with rfl | hx'
            · exact absurd (ha x hx) (StrictlyOrdered.irrefl x)
            · exact hx'
          · rcases List.mem_cons.mp ((h x).mpr (List.mem_cons_of_mem _ hx)) with rfl | hx'
            · exact absurd (hb x hx) (StrictlyOrdered.irrefl x)
            · exact hx'

end QueryTyping
