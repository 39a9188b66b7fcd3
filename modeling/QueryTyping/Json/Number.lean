import QueryTyping.Json.Value

/-!
# JSON numbers

An integer that fits in 64 bits, signed or not, is read exactly.  Every other number is a double.
Its digits are gathered while they fit in 64 bits; the gathered digits, rounded to a double, are
then scaled by a power of ten that is itself a rounded double.  Minus zero is a double.  A number
beyond the largest double is broken.

Main statements: `length_split_lt` says that reading a number uses up characters, and
`ofSigned_of_neg` which negative integers are read exactly.
-/

namespace QueryTyping.Json

/-- The digits of a number, and its exponent if it has one. -/
structure Numeral where
  negative : Bool
  whole : List Char
  fraction : Option (List Char)
  exponent : Option Int
  deriving Repr

/-- The value of a decimal digit. -/
def digitValue (c : Char) : Nat := c.toNat - '0'.toNat

/-- The value of a row of decimal digits. -/
def digitsValue (ds : List Char) : Nat := ds.foldl (fun n c => 10 * n + digitValue c) 0

/-- Append digits to a number while it stays below 64 bits; the digits left over. -/
def gather (n : Nat) : List Char → Nat × List Char
  | [] => (n, [])
  | c :: ds =>
      if 10 * n + digitValue c < 0x10000000000000000 then gather (10 * n + digitValue c) ds else (n, c :: ds)

/-- Divide by a power of ten, in steps that are doubles themselves. -/
def scaleDown (x : Binary64) (k : Nat) : Binary64 :=
  if k ≤ 308 then x.div (Binary64.tenTo k)
  else if x.isZero then x
  else scaleDown (x.div (Binary64.tenTo 308)) (k - 308)
termination_by k
decreasing_by omega

/-- A double times a power of ten, unless that is beyond all doubles. -/
def scale? (x : Binary64) (power : Int) : Option Binary64 :=
  if power < 0 then some (scaleDown x (-power).toNat)
  else if x.isZero then some x
  else if 308 < power then none
  else
    let y := x.mul (Binary64.tenTo power.toNat)
    if y.isFinite then some y else none

/-- A double of the given sign, digits and power of ten. -/
def ofParts (negative : Bool) (digits : Nat) (power : Int) : Json :=
  match scale? (Binary64.ofNat digits) power with
  | some x => real { x with negative }
  | none => broken

/-- An integer of the given sign and absolute value. -/
def ofSigned (negative : Bool) (n : Nat) : Json :=
  if !negative then int n
  else if n == 0 || 0x8000000000000000 < n then real { Binary64.ofNat n with negative := true }
  else int (-(n : Int))

/-- The value of a number. -/
def Numeral.value (n : Numeral) : Json :=
  let (digits, dropped) := gather 0 n.whole
  match n.fraction, n.exponent with
  | none, none =>
      if dropped.isEmpty then ofSigned n.negative digits
      else ofParts n.negative digits dropped.length
  | fraction, exponent =>
      let ds := fraction.getD []
      let (digits, left) := gather digits ds
      let used := ds.length - left.length
      ofParts n.negative digits (dropped.length - used + exponent.getD 0)

/-- The digits at the front of a text, at least one, and what follows. -/
def takeDigits (cs : List Char) : Option (List Char × List Char) :=
  match cs.takeWhile Char.isDigit with
  | [] => none
  | ds => some (ds, cs.dropWhile Char.isDigit)

/-- The digits of an exponent with their sign. -/
def takeExponent (cs : List Char) : Option (Int × List Char) :=
  match cs with
  | '+' :: rest => (takeDigits rest).map fun (ds, rest) => ((digitsValue ds : Int), rest)
  | '-' :: rest => (takeDigits rest).map fun (ds, rest) => (-(digitsValue ds : Int), rest)
  | _ => (takeDigits cs).map fun (ds, rest) => ((digitsValue ds : Int), rest)

/-- The fraction after a point, if there is a point. -/
def splitFraction (cs : List Char) : Option (Option (List Char) × List Char) :=
  match cs with
  | '.' :: rest => (takeDigits rest).map fun (ds, rest) => (some ds, rest)
  | _ => some (none, cs)

/-- The exponent after an `e`, if there is one. -/
def splitExponent (cs : List Char) : Option (Option Int × List Char) :=
  match cs with
  | 'e' :: rest | 'E' :: rest => (takeExponent rest).map fun (e, rest) => (some e, rest)
  | _ => some (none, cs)

/-- The unsigned number at the front of a text, and what follows.  A whole part of more than one
digit does not start with a zero. -/
def splitUnsigned (negative : Bool) (cs : List Char) : Option (Numeral × List Char) := do
  let (whole, rest) ← takeDigits cs
  guard (whole.length = 1 ∨ whole.head? ≠ some '0')
  let (fraction, rest) ← splitFraction rest
  let (exponent, rest) ← splitExponent rest
  some (⟨negative, whole, fraction, exponent⟩, rest)

/-- The number at the front of a text, and what follows. -/
def split (cs : List Char) : Option (Numeral × List Char) :=
  match cs with
  | '-' :: rest => splitUnsigned true rest
  | _ => splitUnsigned false cs

theorem length_takeDigits_lt {cs ds rest : List Char} (h : takeDigits cs = some (ds, rest)) :
    rest.length < cs.length := by
  unfold takeDigits at h
  split at h
  · cases h
  · rename_i hne
    cases h
    have hsum := congrArg List.length (List.takeWhile_append_dropWhile (p := Char.isDigit) (l := cs))
    have hpos : 0 < (cs.takeWhile Char.isDigit).length := List.length_pos_iff.mpr hne
    simp only [List.length_append] at hsum
    omega

theorem length_takeExponent_lt {cs rest : List Char} {e : Int}
    (h : takeExponent cs = some (e, rest)) : rest.length < cs.length := by
  unfold takeExponent at h
  split at h <;> obtain ⟨⟨ds, r⟩, hd, heq⟩ := Option.map_eq_some_iff.mp h <;> cases heq
  · exact Nat.lt_succ_of_lt (length_takeDigits_lt hd)
  · exact Nat.lt_succ_of_lt (length_takeDigits_lt hd)
  · exact length_takeDigits_lt hd

theorem length_splitFraction_le {cs rest : List Char} {f : Option (List Char)}
    (h : splitFraction cs = some (f, rest)) : rest.length ≤ cs.length := by
  unfold splitFraction at h
  split at h
  · obtain ⟨⟨ds, r⟩, hd, heq⟩ := Option.map_eq_some_iff.mp h
    cases heq
    exact Nat.le_succ_of_le (Nat.le_of_lt (length_takeDigits_lt hd))
  · cases h; exact Nat.le_refl _

theorem length_splitExponent_le {cs rest : List Char} {e : Option Int}
    (h : splitExponent cs = some (e, rest)) : rest.length ≤ cs.length := by
  unfold splitExponent at h
  split at h
  · obtain ⟨⟨ds, r⟩, hd, heq⟩ := Option.map_eq_some_iff.mp h
    cases heq
    exact Nat.le_succ_of_le (Nat.le_of_lt (length_takeExponent_lt hd))
  · obtain ⟨⟨ds, r⟩, hd, heq⟩ := Option.map_eq_some_iff.mp h
    cases heq
    exact Nat.le_succ_of_le (Nat.le_of_lt (length_takeExponent_lt hd))
  · cases h; exact Nat.le_refl _

theorem length_splitUnsigned_lt {negative : Bool} {cs rest : List Char} {n : Numeral}
    (h : splitUnsigned negative cs = some (n, rest)) : rest.length < cs.length := by
  obtain ⟨⟨whole, r₁⟩, h₁, h⟩ := Option.bind_eq_some_iff.mp h
  obtain ⟨_, -, h⟩ := Option.bind_eq_some_iff.mp h
  obtain ⟨⟨f, r₂⟩, h₂, h⟩ := Option.bind_eq_some_iff.mp h
  obtain ⟨⟨e, r₃⟩, h₃, h₄⟩ := Option.bind_eq_some_iff.mp h
  cases h₄
  have hwhole : r₁.length < cs.length := length_takeDigits_lt h₁
  have hfraction : r₂.length ≤ r₁.length := length_splitFraction_le h₂
  have hexponent : rest.length ≤ r₂.length := length_splitExponent_le h₃
  exact Nat.lt_of_le_of_lt (Nat.le_trans hexponent hfraction) hwhole

/-- Reading a number uses up characters. -/
theorem length_split_lt {cs rest : List Char} {n : Numeral} (h : split cs = some (n, rest)) :
    rest.length < cs.length := by
  unfold split at h
  split at h
  · exact Nat.lt_succ_of_lt (length_splitUnsigned_lt h)
  · exact length_splitUnsigned_lt h

theorem ofSigned_of_neg {n : Nat} (hpos : 0 < n) (hle : n ≤ 0x8000000000000000) :
    ofSigned true n = int (-(n : Int)) := by
  unfold ofSigned
  rw [if_neg (by simp), if_neg]
  simp only [Bool.or_eq_true, beq_iff_eq, decide_eq_true_eq, not_or, Nat.not_lt]
  exact ⟨Nat.ne_of_gt hpos, hle⟩

end QueryTyping.Json
