import Mathlib.Data.Finset.Basic
import QueryTyping.Proofs.Expr.FreeNames

/-!
# Free variables by recursion

The free variables of a tree are given by recursion on it: a reference has its name, a filter has
those of its list and, apart from the name it binds, those of its predicate and its projection, and
every other node has those of its children.  A scan works in another way, with one set of names and a
list of hidden names that are handed through the whole tree, and it finds the same names.

Main statements: `mem_freeVariables_of_filter_none` and `mem_freeVariables_of_filter` are the
recursion on the children of a node, and `dependencies_eq_freeVariables` says that the names an
expression reads are its free variables.
-/

namespace QueryTyping

mutual

/-- The free variables of a tree. -/
def Expr.freeVariables : Expr → Finset String
  | .literal .. | .parameter .. | .countStar _ => ∅
  | .reference _ x => {x}
  | .list _ es | .call _ _ _ es => freeVariablesAll es
  | .property _ m _ => m.freeVariables
  | .unary _ _ e => e.freeVariables
  | .binary _ _ l r => l.freeVariables ∪ r.freeVariables
  | .comprehension _ b s p q =>
      s.freeVariables ∪ (freeVariablesOption p ∪ freeVariablesOption q).erase b.name
  | .quantified _ _ b s p => s.freeVariables ∪ (freeVariablesOption p).erase b.name

/-- The free variables of trees in a row. -/
def freeVariablesAll : List Expr → Finset String
  | [] => ∅
  | e :: es => e.freeVariables ∪ freeVariablesAll es

/-- The free variables of a tree that may be missing. -/
def freeVariablesOption : Option Expr → Finset String
  | none => ∅
  | some e => e.freeVariables

end

variable {x : String}

theorem mem_freeVariablesAll {es : List Expr} :
    x ∈ freeVariablesAll es ↔ ∃ e ∈ es, x ∈ e.freeVariables := by
  induction es with
  | nil => simp [freeVariablesAll]
  | cons e es ih => simp [freeVariablesAll, ih]

theorem mem_freeVariablesOption {p : Option Expr} :
    x ∈ freeVariablesOption p ↔ ∃ e ∈ p.toList, x ∈ e.freeVariables := by
  cases p <;> simp [freeVariablesOption]

namespace Expr

variable {e : Expr}

/-- A node that binds nothing and refers to nothing has the free variables of its children. -/
theorem mem_freeVariables_of_filter_none (h : e.filter? = none) (href : ∀ n x, e ≠ reference n x) :
    x ∈ e.freeVariables ↔ ∃ c ∈ e.children, x ∈ c.freeVariables := by
  cases e with
  | reference n x => exact absurd rfl (href n x)
  | comprehension n b s p q => cases h
  | quantified n k b s p => cases h
  | list n es => rw [freeVariables, mem_freeVariablesAll, children]
  | call n f d es => rw [freeVariables, mem_freeVariablesAll, children]
  | _ => simp [freeVariables, children]

/-- A filter has the free variables of its list, and inside of its binding all but its own. -/
theorem mem_freeVariables_of_filter {f : Filter} (h : e.filter? = some f) :
    x ∈ e.freeVariables ↔
      (∃ c ∈ e.outside, x ∈ c.freeVariables) ∨
        (∃ c ∈ e.within, x ∈ c.freeVariables) ∧ x ≠ f.bound.name := by
  cases e with
  | comprehension n b s p q =>
      cases h
      have hwithin : x ∈ freeVariablesOption p ∪ freeVariablesOption q ↔
          ∃ c ∈ p.toList ++ q.toList, x ∈ c.freeVariables := by
        simp only [Finset.mem_union, mem_freeVariablesOption, List.mem_append, or_and_right,
          exists_or]
      rw [freeVariables, Finset.mem_union, Finset.mem_erase, hwithin, and_comm]
      simp [outside, within]
  | quantified n k b s p =>
      cases h
      rw [freeVariables, Finset.mem_union, Finset.mem_erase, mem_freeVariablesOption, and_comm]
      simp [outside, within]
  | _ => cases h

/-- The names of the free references are the free variables. -/
theorem mem_freeNames_iff : x ∈ e.freeNames ↔ x ∈ e.freeVariables := by
  induction e using children_induction with
  | node e ih =>
      cases hf : e.filter? with
      | some f =>
          rw [mem_freeNames_of_filter hf, mem_freeVariables_of_filter hf, List.mem_flatMap,
            List.mem_flatMap]
          have hout : ∀ c ∈ e.outside, (x ∈ c.freeNames ↔ x ∈ c.freeVariables) :=
            fun c hc => ih c (mem_children_of_outside hc)
          have hin : ∀ c ∈ e.within, (x ∈ c.freeNames ↔ x ∈ c.freeVariables) :=
            fun c hc => ih c (mem_children_of_within hc)
          grind
      | none =>
          by_cases href : ∃ n y, e = reference n y
          · obtain ⟨n, y, rfl⟩ := href
            rw [freeNames_reference, freeVariables, List.mem_singleton, Finset.mem_singleton]
          · have hnot : ∀ n y, e ≠ reference n y := fun n y heq => href ⟨n, y, heq⟩
            rw [freeNames_of_filter_none hf hnot, mem_freeVariables_of_filter_none hf hnot,
              List.mem_flatMap]
            grind

/-- **The names read are the free variables.** -/
theorem dependencies_eq_freeVariables (e : Expr) :
    e.dependencies.toList.toFinset = e.freeVariables := by
  ext x
  rw [List.mem_toFinset, ← NameSet.mem_def, mem_dependencies_iff, mem_freeNames_iff]

end Expr
end QueryTyping
