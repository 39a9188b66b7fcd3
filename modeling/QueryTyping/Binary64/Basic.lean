/-!
# Double precision numbers

A finite double is a sign and a rank: the position of its absolute value among all nonnegative
doubles.  The rank is also the bit pattern of the absolute value.  Arithmetic is exact on
fractions, followed by rounding to the nearest double, a tie going to the even rank.
-/

namespace QueryTyping

/-- A double: its sign and the position of its absolute value.  Ranks from `Binary64.limit` on do
not stand for finite numbers. -/
structure Binary64 where
  negative : Bool
  rank : Nat
  deriving DecidableEq, Repr, Inhabited

namespace Binary64

/-- The number of doubles that share one exponent. -/
def binade : Nat := 0x10000000000000

/-- The first rank that is no finite number. -/
def limit : Nat := 2047 * binade

/-- The double is a number and not infinite. -/
def isFinite (x : Binary64) : Bool := x.rank < limit

/-- The double is zero, of either sign. -/
def isZero (x : Binary64) : Bool := x.rank == 0

/-- The double with the other sign. -/
def neg (x : Binary64) : Binary64 := { x with negative := !x.negative }

/-- The sign bit, exponent and fraction of the double as one word. -/
def bits (x : Binary64) : Nat := (if x.negative then 0x8000000000000000 else 0) + x.rank

/-- The integer `m` and the scale `s` with which the absolute value is `m · 2 ^ (s - 1074)`. -/
def scaled (x : Binary64) : Nat × Nat :=
  if x.rank < binade then (x.rank, 0)
  else (x.rank % binade + binade, x.rank / binade - 1)

/-- The absolute value as a fraction. -/
def fraction (x : Binary64) : Nat × Nat := (x.scaled.1 * Nat.pow 2 x.scaled.2, Nat.pow 2 1074)

/-- A quotient rounded to the nearest integer, a tie going to the even one. -/
def roundQuotient (num den : Nat) : Nat :=
  let q := num / den
  let r := num % den
  if 2 * r < den then q
  else if den < 2 * r then q + 1
  else q + q % 2

/-- The scale at which `num / den · 2 ^ 1074` has 53 binary digits, or 0 if it has fewer. -/
def scaleOf (num den : Nat) : Nat :=
  let n := num * Nat.pow 2 1074
  let s := Nat.log2 n - Nat.log2 den - 53
  if n / (den * Nat.pow 2 s) < 2 * binade then s else s + 1

/-- The double nearest to `num / den`. -/
def ofFraction (negative : Bool) (num den : Nat) : Binary64 :=
  let s := scaleOf num den
  ⟨negative, min limit (s * binade + roundQuotient (num * Nat.pow 2 1074) (den * Nat.pow 2 s))⟩

/-- The double nearest to a natural number. -/
def ofNat (n : Nat) : Binary64 := ofFraction false n 1

/-- The double nearest to an integer. -/
def ofInt (n : Int) : Binary64 := ofFraction (n < 0) n.natAbs 1

/-- The rounded product of two finite doubles. -/
def mul (x y : Binary64) : Binary64 :=
  ofFraction (x.negative != y.negative)
    (x.fraction.1 * y.fraction.1) (x.fraction.2 * y.fraction.2)

/-- The rounded quotient of two finite doubles, the second not zero. -/
def div (x y : Binary64) : Binary64 :=
  ofFraction (x.negative != y.negative)
    (x.fraction.1 * y.fraction.2) (x.fraction.2 * y.fraction.1)

/-- The double nearest to a power of ten. -/
def tenTo (k : Nat) : Binary64 := ofNat (Nat.pow 10 k)

end Binary64
end QueryTyping
