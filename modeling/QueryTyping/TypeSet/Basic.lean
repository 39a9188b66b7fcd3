import QueryTyping.TypeSet.Range

/-!
# Type sets

The set of types an expression may have, as currently known.  A set is an increasing list of
canonical ranges none of which covers another, so each set has one form and equality of sets is
equality of lists.

Main statements: `mem_ranges_ofRanges` says which ranges a set keeps, and `ext_ranges` that sets
with the same ranges are equal.
-/

namespace QueryTyping

/-- A set of types, given by its ranges. -/
structure TypeSet where
  ranges : List TypeRange
  increasing : Increasing ranges
  canonical : ∀ r ∈ ranges, r.canonical = r
  unrelated : ∀ r ∈ ranges, ∀ s ∈ ranges, s.covers r = true → s = r

namespace TypeSet

/-- Sets with the same ranges are equal. -/
theorem ext_ranges {a b : TypeSet} (h : a.ranges = b.ranges) : a = b := by
  cases a; cases b; cases h; rfl

instance : DecidableEq TypeSet := fun a b =>
  decidable_of_iff (a.ranges = b.ranges) ⟨ext_ranges, fun h => h ▸ rfl⟩

/-- Some other range of the list covers `r`. -/
def redundant (rs : List TypeRange) (r : TypeRange) : Bool :=
  rs.any fun s => s != r && s.covers r

/-- The canonical ranges of a list that no other one covers, in order. -/
def maximal (rs : List TypeRange) : List TypeRange :=
  (arrange (rs.map TypeRange.canonical)).filter
    fun r => !redundant (arrange (rs.map TypeRange.canonical)) r

theorem mem_maximal {rs : List TypeRange} {r : TypeRange} :
    r ∈ maximal rs ↔
      r ∈ rs.map TypeRange.canonical ∧
        ∀ s ∈ rs.map TypeRange.canonical, s.covers r = true → s = r := by
  simp only [maximal, redundant, List.mem_filter, mem_arrange, Bool.not_eq_true',
    List.any_eq_false, Bool.and_eq_true, bne_iff_ne, ne_eq, not_and, and_congr_right_iff]
  intro _
  constructor
  · intro h s hs hcov
    exact Classical.byContradiction fun hne => h s hs hne hcov
  · intro h s hs hne hcov
    exact hne (h s hs hcov)

/-- The set of everything that lies in one of the ranges. -/
def ofRanges (rs : List TypeRange) : TypeSet where
  ranges := maximal rs
  increasing := List.Pairwise.filter _ (increasing_arrange _)
  canonical r hr := by
    obtain ⟨s, -, rfl⟩ := List.mem_map.mp (mem_maximal.mp hr).1
    exact s.canonical_canonical
  unrelated _ hr s hs := (mem_maximal.mp hr).2 s (mem_maximal.mp hs).1

/-- A set keeps the canonical ranges that no other one covers. -/
theorem mem_ranges_ofRanges {rs : List TypeRange} {r : TypeRange} :
    r ∈ (ofRanges rs).ranges ↔
      r ∈ rs.map TypeRange.canonical ∧
        ∀ s ∈ rs.map TypeRange.canonical, s.covers r = true → s = r :=
  mem_maximal

/-- The set without members. -/
def empty : TypeSet := ofRanges []

/-- The set of just one type. -/
def exact (t : Ty) : TypeSet := ofRanges [.exact t]

/-- The set of a type and its subtypes. -/
def covariant (t : Ty) : TypeSet := ofRanges [.covariant t]

/-- The set of all types. -/
def all : TypeSet := covariant .any

instance : Inhabited TypeSet := ⟨empty⟩
instance : EmptyCollection TypeSet := ⟨empty⟩

/-- The set has no members. -/
def isEmpty (a : TypeSet) : Bool := a.ranges.isEmpty

/-- The set has every type. -/
def isAll (a : TypeSet) : Bool := a.ranges.contains (.covariant .any)

/-- Membership of a type. -/
def contains (a : TypeSet) (t : Ty) : Bool := a.ranges.any (·.contains t)

instance : Membership Ty TypeSet := ⟨fun a t => a.contains t = true⟩

instance (t : Ty) (a : TypeSet) : Decidable (t ∈ a) :=
  inferInstanceAs (Decidable (a.contains t = true))

/-- What is in one of the sets. -/
def union (a b : TypeSet) : TypeSet := ofRanges (a.ranges ++ b.ranges)

/-- What is in both sets. -/
def inter (a b : TypeSet) : TypeSet :=
  ofRanges (a.ranges.flatMap fun r => b.ranges.filterMap r.inter?)

instance : Union TypeSet := ⟨union⟩
instance : Inter TypeSet := ⟨inter⟩

/-- The sets share a member. -/
def meets (a b : TypeSet) : Bool :=
  a.ranges.any fun r => b.ranges.any fun s => (r.inter? s).isSome

/-- The closest join of a range with a range of the set. -/
def closestJoin? (r : TypeRange) (a : TypeSet) : Option TypeRange :=
  TypeRange.closest? (a.ranges.map r.join)

/-- A set in which every member of either set has itself or a supertype: each range is joined with
its closest counterpart on the other side.  The empty set adds nothing. -/
def join (a b : TypeSet) : TypeSet :=
  if a.isEmpty then b
  else if b.isEmpty then a
  else ofRanges (a.ranges.filterMap (closestJoin? · b) ++ b.ranges.filterMap (closestJoin? · a))

/-- The union of a list of sets. -/
def unions (as : List TypeSet) : TypeSet := as.foldl union empty

/-- The join of a list of sets. -/
def joins (as : List TypeSet) : TypeSet := as.foldl join empty

/-- The lists of each member. -/
def wrap (a : TypeSet) : TypeSet := ofRanges (a.ranges.map fun r => r.withTy (.list r.ty))

/-- The elements that a member of the range has as a list.  A value of any type may be a list of
anything; a range of other types has no elements. -/
def elementRange? (r : TypeRange) : Option TypeRange :=
  match r.ty with
  | .list element => some (r.withTy element)
  | .any => some r
  | _ => none

/-- The elements of the lists in the set. -/
def unwrap (a : TypeSet) : TypeSet := ofRanges (a.ranges.filterMap elementRange?)

/-- The set, or another one if it has no members. -/
def orElse (a b : TypeSet) : TypeSet := if a.isEmpty then b else a

/-- The written form: the names of the types in order, each once, or `Nothing`. -/
def text (a : TypeSet) : String :=
  if a.isEmpty then "Nothing"
  else " or ".intercalate (arrange (a.ranges.map fun r => r.ty.name))

@[simp] theorem ranges_empty : empty.ranges = [] := rfl

end TypeSet
end QueryTyping
