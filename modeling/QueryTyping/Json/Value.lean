import QueryTyping.Binary64.Basic

/-!
# JSON values

A JSON value keeps the order and the repetitions of the fields of an object, because the formats
built on it say what a repeated field means.  Some texts follow the grammar of JSON but denote
nothing: a number beyond the doubles, a string with half of a surrogate pair, an object with such
a key.  They are `broken`, and a reader that uses the whole text refuses them.

Main statements: `sound_array` and `sound_object` say that a value is sound if its parts are, and
`same_iff` that comparing values part by part decides whether they are equal.
-/

namespace QueryTyping

/-- A JSON value. -/
inductive Json where
  | null
  | bool (value : Bool)
  | int (value : Int)
  | real (value : Binary64)
  | string (value : String)
  | array (items : List Json)
  | object (fields : List (String × Json))
  | broken
  deriving Inhabited

namespace Json

mutual

/-- The number of brackets around the innermost value, counted from outside. -/
def depth : Json → Nat
  | array items => depthOfItems items + 1
  | object fields => depthOfFields fields + 1
  | null | bool _ | int _ | real _ | string _ | broken => 0

/-- The largest depth in a list of values. -/
def depthOfItems : List Json → Nat
  | [] => 0
  | v :: vs => max v.depth (depthOfItems vs)

/-- The largest depth in a list of fields. -/
def depthOfFields : List (String × Json) → Nat
  | [] => 0
  | (_, v) :: fs => max v.depth (depthOfFields fs)

end

mutual

/-- Nothing in the value is broken. -/
def sound : Json → Bool
  | array items => soundItems items
  | object fields => soundFields fields
  | broken => false
  | null | bool _ | int _ | real _ | string _ => true

/-- Nothing in a list of values is broken. -/
def soundItems : List Json → Bool
  | [] => true
  | v :: vs => v.sound && soundItems vs

/-- Nothing in a list of fields is broken. -/
def soundFields : List (String × Json) → Bool
  | [] => true
  | (_, v) :: fs => v.sound && soundFields fs

end

/-- The string value, if the value is a string. -/
def string? : Json → Option String
  | string s => some s
  | _ => none

/-- The natural number below `bound`, if the value is one. -/
def nat? (bound : Nat) : Json → Option Nat
  | int n => if 0 ≤ n ∧ n < bound then some n.toNat else none
  | _ => none

/-- A natural number as a value. -/
def ofNat (n : Nat) : Json := int n

/-- A natural number below the bound is read back. -/
theorem nat_ofNat {n bound : Nat} (h : n < bound) : (ofNat n).nat? bound = some n := by
  have : (n : Int) < bound := Int.ofNat_lt.mpr h
  simp [ofNat, nat?, this]

theorem soundItems_eq_all (vs : List Json) : soundItems vs = vs.all sound := by
  induction vs with
  | nil => rfl
  | cons v vs ih => rw [soundItems, ih, List.all_cons]

theorem soundFields_eq_all (fs : List (String × Json)) :
    soundFields fs = fs.all fun f => f.2.sound := by
  induction fs with
  | nil => rfl
  | cons f fs ih => obtain ⟨k, v⟩ := f; rw [soundFields, ih, List.all_cons]

theorem sound_array (vs : List Json) : (array vs).sound = vs.all sound := by
  rw [sound, soundItems_eq_all]

theorem sound_object (fs : List (String × Json)) :
    (object fs).sound = fs.all fun f => f.2.sound := by
  rw [sound, soundFields_eq_all]

mutual

/-- The values are the same. -/
def same : Json → Json → Bool
  | null, null | broken, broken => true
  | bool a, bool b => a == b
  | int m, int n => m == n
  | real x, real y => x == y
  | string s, string t => s == t
  | array vs, array ws => sameItems vs ws
  | object fs, object gs => sameFields fs gs
  | _, _ => false

/-- The lists of values are the same. -/
def sameItems : List Json → List Json → Bool
  | [], [] => true
  | v :: vs, w :: ws => v.same w && sameItems vs ws
  | _, _ => false

/-- The lists of fields are the same. -/
def sameFields : List (String × Json) → List (String × Json) → Bool
  | [], [] => true
  | (k, v) :: fs, (l, w) :: gs => k == l && v.same w && sameFields fs gs
  | _, _ => false

end

mutual

theorem same_iff (v w : Json) : v.same w = true ↔ v = w := by
  cases v <;> cases w <;> simp [same]
  case array vs ws => exact sameItems_iff vs ws
  case object fs gs => exact sameFields_iff fs gs

theorem sameItems_iff (vs ws : List Json) : sameItems vs ws = true ↔ vs = ws := by
  match vs, ws with
  | [], [] | [], _ :: _ | _ :: _, [] => simp [sameItems]
  | v :: vs, w :: ws => simp [sameItems, same_iff v w, sameItems_iff vs ws]

theorem sameFields_iff (fs gs : List (String × Json)) : sameFields fs gs = true ↔ fs = gs := by
  match fs, gs with
  | [], [] | [], _ :: _ | _ :: _, [] => simp [sameFields]
  | (k, v) :: fs, (l, w) :: gs =>
      simp [sameFields, same_iff v w, sameFields_iff fs gs, and_assoc]

end

instance : DecidableEq Json := fun v w => decidable_of_iff (v.same w = true) (same_iff v w)

end Json
end QueryTyping
