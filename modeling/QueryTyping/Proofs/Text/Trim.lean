import Mathlib.Data.List.TakeWhile
import QueryTyping.Text.Blank

/-!
# What trimming leaves

Trimming cuts a text into the blanks at its front, the blanks at its back and what stands between
them.  What stands between does not depend on how many blanks there are.

Main statements: `exists_blanks_around_trim` says that only blanks are lost, and
`trim_of_blanks_around` that a text without blanks at its ends is what is left.
-/

namespace QueryTyping.Text

/-- All characters are blank. -/
def Blanks (cs : List Char) : Prop := ∀ c ∈ cs, isBlank c = true

/-- Neither the first nor the last character is blank. -/
structure Trimmed (cs : List Char) : Prop where
  first : ∀ c ∈ cs.head?, isBlank c = false
  last : ∀ c ∈ cs.getLast?, isBlank c = false

variable {before cs after : List Char}

theorem blanks_nil : Blanks [] := fun _ h => absurd h List.not_mem_nil

/-- A text without blanks has none at its ends. -/
theorem Trimmed.of_forall (h : ∀ c ∈ cs, isBlank c = false) : Trimmed cs where
  first c hc := h c (List.mem_of_mem_head? hc)
  last c hc := h c (List.mem_of_mem_getLast? hc)

theorem trimFront_of_blanks (h : Blanks before) : trimFront (before ++ cs) = trimFront cs :=
  List.dropWhile_append_of_pos h

theorem trimFront_of_first (h : ∀ c ∈ cs.head?, isBlank c = false) : trimFront cs = cs := by
  cases cs with
  | nil => rfl
  | cons c cs => exact List.dropWhile_cons_of_neg (by simp [h c rfl])

/-- The blanks at the front and what is left. -/
theorem exists_blanks_before_trimFront (cs : List Char) :
    ∃ before, Blanks before ∧ before ++ trimFront cs = cs := by
  refine ⟨cs.takeWhile isBlank, ?_, List.takeWhile_append_dropWhile⟩
  intro c hc
  exact List.mem_takeWhile_imp hc

/-- **Only blanks are lost.**  -/
theorem exists_blanks_around_trim (cs : List Char) :
    ∃ before after, Blanks before ∧ Blanks after ∧ cs = before ++ trim cs ++ after := by
  obtain ⟨before, hbefore, hfront⟩ := exists_blanks_before_trimFront cs
  obtain ⟨after, hafter, hback⟩ := exists_blanks_before_trimFront (trimFront cs).reverse
  refine ⟨before, after.reverse, hbefore, ?_, ?_⟩
  · intro c hc
    exact hafter c (List.mem_reverse.mp hc)
  · have hsplit : trim cs ++ after.reverse = trimFront cs := by
      rw [trim, trimBack, ← List.reverse_append, hback, List.reverse_reverse]
    rw [List.append_assoc, hsplit, hfront]

/-- **What stands between the blanks is left.**  -/
theorem trim_of_blanks_around (hbefore : Blanks before) (hafter : Blanks after)
    (h : Trimmed cs) : trim (before ++ cs ++ after) = cs := by
  have hback : Blanks after.reverse := fun c hc => hafter c (List.mem_reverse.mp hc)
  rw [trim, List.append_assoc, trimFront_of_blanks hbefore]
  cases cs with
  | nil =>
      have hempty : trimFront after = [] := by
        rw [← List.append_nil after, trimFront_of_blanks hafter]
        rfl
      rw [List.nil_append, hempty]
      rfl
  | cons c cs =>
      have hfront : trimFront (c :: cs ++ after) = c :: cs ++ after :=
        trimFront_of_first fun d hd => h.first d hd
      have hlast : ∀ d ∈ (c :: cs).reverse.head?, isBlank d = false := by
        rw [List.head?_reverse]
        exact h.last
      rw [hfront, trimBack, List.reverse_append, trimFront_of_blanks hback,
        trimFront_of_first hlast, List.reverse_reverse]

end QueryTyping.Text
