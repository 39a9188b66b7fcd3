/-!
# Types

The types of the query language form a tree.  `any` is its root, every other type has exactly one
parent, and a list type is refined by refining the type of its elements.  One type accepts another
when it is among the other's ancestors; two types have a join, the lowest type that accepts both.

Main statements: `ancestors_eq` ties the ancestors of a type to its parent, and `accepts_refl`
and `any_accepts` are the two ends of the order.
-/

namespace QueryTyping

/-- A single type of the query language. -/
inductive Ty where
  | any
  | boolean
  | string
  | number
  | integer
  | float
  | map
  | node
  | relationship
  | path
  | list (element : Ty)
  deriving DecidableEq, Repr, Inhabited

namespace Ty

/-- The direct supertype.  Only `any` has none. -/
def parent? : Ty → Option Ty
  | any => none
  | integer | float => some number
  | node | relationship => some map
  | list element =>
      match element.parent? with
      | some wider => some (list wider)
      | none => some any
  | boolean | string | number | map | path => some any

/-- The type itself, then its supertypes from the nearest up to `any`. -/
def ancestors : Ty → List Ty
  | any => [any]
  | integer => [integer, number, any]
  | float => [float, number, any]
  | node => [node, map, any]
  | relationship => [relationship, map, any]
  | boolean => [boolean, any]
  | string => [string, any]
  | number => [number, any]
  | map => [map, any]
  | path => [path, any]
  | list element => element.ancestors.map list ++ [any]

/-- The number of steps up to `any`. -/
def depth (t : Ty) : Nat := t.ancestors.length - 1

/-- A value of type `t` may stand where `s` is expected. -/
def accepts (s t : Ty) : Bool := t.ancestors.contains s

/-- Some other type is accepted too. -/
def hasSubtypes : Ty → Bool
  | any | number | map => true
  | list element => element.hasSubtypes
  | boolean | string | integer | float | node | relationship | path => false

/-- The lowest type that accepts both. -/
def join (s t : Ty) : Ty := (s.ancestors.find? (·.accepts t)).getD any

/-- The place of a type in the fixed order of types: base types as listed, then lists by their
elements. -/
def code : Ty → Nat
  | any => 0
  | boolean => 1
  | string => 2
  | number => 3
  | integer => 4
  | float => 5
  | map => 6
  | node => 7
  | relationship => 8
  | path => 9
  | list element => element.code + 10

/-- Walking up from a type visits the type and then the ancestors of its parent. -/
theorem ancestors_eq (t : Ty) :
    t.ancestors = t :: (match t.parent? with
      | some wider => wider.ancestors
      | none => []) := by
  induction t with
  | list element ih =>
      rw [ancestors, parent?, ih]
      cases h : element.parent? <;> simp [ancestors]
  | _ => rfl

theorem self_mem_ancestors (t : Ty) : t ∈ t.ancestors := by
  rw [ancestors_eq]; exact List.mem_cons_self

theorem any_mem_ancestors (t : Ty) : any ∈ t.ancestors := by
  cases t <;> simp [ancestors]

theorem accepts_refl (t : Ty) : t.accepts t = true := by
  simpa [accepts] using self_mem_ancestors t

theorem any_accepts (t : Ty) : any.accepts t = true := by
  simpa [accepts] using any_mem_ancestors t

/-- The place determines the type. -/
theorem code_injective {s t : Ty} (h : s.code = t.code) : s = t := by
  induction s generalizing t with
  | list s ih =>
      cases t with
      | list t => exact congrArg list (ih (by simpa [code] using h))
      | _ => simp only [code] at h; omega
  | _ => cases t <;> simp only [code] at h <;> first | rfl | omega

end Ty
end QueryTyping
