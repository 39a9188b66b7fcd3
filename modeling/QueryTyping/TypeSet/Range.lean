import QueryTyping.Ty.Name
import QueryTyping.Order.Increasing

/-!
# Type ranges

A range is the smallest kind of type set: one type exactly, or a type with everything below it.
A type without subtypes has only one range; its `covariant` spelling is replaced by the `exact`
one, so that ranges with the same members are equal.

Main statements: `contains_canonical` says that the replacement keeps the members, and
`canonical_canonical` that it is done once and for all.
-/

namespace QueryTyping

/-- One type exactly, or a type together with its subtypes. -/
inductive TypeRange where
  | exact (ty : Ty)
  | covariant (ty : Ty)
  deriving DecidableEq, Repr, Inhabited

namespace TypeRange

/-- The highest type of a range. -/
def ty : TypeRange → Ty
  | exact t | covariant t => t

/-- Whether the subtypes belong to the range. -/
def isCovariant : TypeRange → Bool
  | exact _ => false
  | covariant _ => true

/-- The range in its one spelling. -/
def canonical : TypeRange → TypeRange
  | exact t => exact t
  | covariant t => if t.hasSubtypes then covariant t else exact t

/-- The same kind of range for another type. -/
def withTy : TypeRange → Ty → TypeRange
  | exact _, t => canonical (exact t)
  | covariant _, t => canonical (covariant t)

/-- Membership of a type. -/
def contains : TypeRange → Ty → Bool
  | exact s, t => s == t
  | covariant s, t => s.accepts t

/-- Every member of the second range is a member of the first. -/
def covers : TypeRange → TypeRange → Bool
  | exact s, exact t => s == t
  | exact _, covariant _ => false
  | covariant s, r => s.accepts r.ty

/-- The common members of two ranges, which are again a range or nothing. -/
def inter? : TypeRange → TypeRange → Option TypeRange
  | exact s, exact t => if s = t then some (exact s) else none
  | exact s, covariant t => if t.accepts s then some (exact s) else none
  | covariant s, exact t => if s.accepts t then some (exact t) else none
  | covariant s, covariant t =>
      if s.accepts t then some (covariant t)
      else if t.accepts s then some (covariant s)
      else none

/-- The join of one exact type with a range below another type. -/
def joinExact (s t : Ty) : TypeRange :=
  if s.accepts t then exact s
  else if t.accepts s then covariant t
  else exact (s.join t)

/-- A range that holds the join of every member of one with every member of the other.  Where the type
of an exact side accepts the other type, or neither type accepts the other, it is the join of the types
alone; otherwise it is the whole range of the higher type. -/
def join : TypeRange → TypeRange → TypeRange
  | exact s, exact t => canonical (exact (s.join t))
  | exact s, covariant t => canonical (joinExact s t)
  | covariant s, exact t => canonical (joinExact t s)
  | covariant s, covariant t =>
      canonical <|
        if s.accepts t then covariant s
        else if t.accepts s then covariant t
        else exact (s.join t)

/-- A closer bound is a deeper type, or at equal depth an exact one before a covariant one. -/
def closerThan (r s : TypeRange) : Bool :=
  s.ty.depth < r.ty.depth || (r.ty.depth == s.ty.depth && !r.isCovariant && s.isCovariant)

/-- The first of the closest ranges. -/
def closest? : List TypeRange → Option TypeRange
  | [] => none
  | r :: rs => some (rs.foldl (fun best s => if s.closerThan best then s else best) r)

instance : LT TypeRange where
  lt
    | exact s, exact t => s.code < t.code
    | exact _, covariant _ => True
    | covariant _, exact _ => False
    | covariant s, covariant t => s.code < t.code

instance : DecidableLT TypeRange
  | exact s, exact t => inferInstanceAs (Decidable (s.code < t.code))
  | exact _, covariant _ => isTrue trivial
  | covariant _, exact _ => isFalse id
  | covariant s, covariant t => inferInstanceAs (Decidable (s.code < t.code))

/-- Exact ranges come first; within a kind the order of types decides. -/
instance : StrictlyOrdered TypeRange where
  irrefl
    | exact t => Nat.lt_irrefl t.code
    | covariant t => Nat.lt_irrefl t.code
  trans {a b c} hab hbc := by
    cases a <;> cases b <;> cases c <;>
      first
      | exact Nat.lt_trans hab hbc
      | exact trivial
      | exact hab.elim
      | exact hbc.elim
  connected {a b} hab hba := by
    cases a <;> cases b
    · exact congrArg exact (Ty.code_injective (StrictlyOrdered.connected hab hba))
    · exact absurd trivial hab
    · exact absurd trivial hba
    · exact congrArg covariant (Ty.code_injective (StrictlyOrdered.connected hab hba))

@[simp] theorem canonical_exact (t : Ty) : canonical (exact t) = exact t := rfl

theorem canonical_covariant (t : Ty) :
    canonical (covariant t) = if t.hasSubtypes then covariant t else exact t := rfl

/-- Spelling a range twice changes nothing more. -/
@[simp] theorem canonical_canonical (r : TypeRange) : r.canonical.canonical = r.canonical := by
  cases r with
  | exact t => rfl
  | covariant t => by_cases h : t.hasSubtypes <;> simp [canonical_covariant, h]

@[simp] theorem ty_canonical (r : TypeRange) : r.canonical.ty = r.ty := by
  cases r with
  | exact t => rfl
  | covariant t => by_cases h : t.hasSubtypes <;> simp [canonical_covariant, h, ty]

/-- A type below a type without subtypes is that type. -/
theorem eq_of_accepts_of_not_hasSubtypes {s t : Ty} (hs : s.hasSubtypes = false)
    (h : s.accepts t = true) : s = t := by
  induction s generalizing t with
  | list s ih =>
      cases t with
      | list t =>
          simp only [Ty.accepts, Ty.ancestors, List.contains_eq_mem, List.mem_append,
            List.mem_map, List.mem_singleton, reduceCtorEq, or_false, decide_eq_true_eq] at h
          obtain ⟨u, hu, hus⟩ := h
          cases hus
          exact congrArg Ty.list (ih hs (by simpa [Ty.accepts] using hu))
      | _ => simp [Ty.accepts, Ty.ancestors] at h
  | any | number | map => simp [Ty.hasSubtypes] at hs
  | _ =>
      cases t with
      | list t => simp [Ty.accepts, Ty.ancestors] at h
      | _ => simp [Ty.accepts, Ty.ancestors] at h; try rfl

/-- The one spelling has the same members. -/
theorem contains_canonical (r : TypeRange) (t : Ty) : r.canonical.contains t = r.contains t := by
  cases r with
  | exact s => rfl
  | covariant s =>
      cases hs : s.hasSubtypes with
      | true => simp [canonical_covariant, hs]
      | false =>
          simp only [canonical_covariant, hs, Bool.false_eq_true, if_false, contains]
          rw [Bool.eq_iff_iff]
          constructor
          · intro h
            rw [beq_iff_eq] at h
            subst h
            exact Ty.accepts_refl _
          · intro h
            exact beq_iff_eq.mpr (eq_of_accepts_of_not_hasSubtypes hs h)

end TypeRange
end QueryTyping
