import QueryTyping.Binary64.Basic

/-!
# The shortest decimal of a double

Every real number close enough to a double reads back as that double.  Its written form has the
fewest digits among the decimals that do, and of those it is the nearest, a tie going to the even
last digit.  Numbers from `10 ^ -5` up to `10 ^ 16` are written with a decimal point and at least
one digit on both sides of it, all others with an exponent.
-/

namespace QueryTyping.Binary64

/-- A positive decimal `digits · 10 ^ power`. -/
structure Decimal where
  digits : Nat
  power : Int
  deriving DecidableEq, Repr

/-- The reals that read back as one double, between `low` and `high` in units of `num / den`, with
the double itself at `mid`.  The ends belong to it when `closed` holds. -/
structure Neighbourhood where
  low : Nat
  mid : Nat
  high : Nat
  closed : Bool
  num : Nat
  den : Nat

/-- The reals nearest to a double.  Below a power of two the neighbours lie twice as close. -/
def neighbourhood (x : Binary64) : Neighbourhood :=
  let (m, s) := x.scaled
  let below := if m == binade && 0 < s then 1 else 2
  ⟨4 * m - below, 4 * m, 4 * m + 2, m % 2 == 0, Nat.pow 2 s, Nat.pow 2 1076⟩

/-- The number of decimal digits of a natural number. -/
def digitCount (n : Nat) : Nat := (Nat.repr n).length

/-- The power of ten at the leading digit of `num / den`. -/
def leadingPower (num den : Nat) : Int :=
  if den ≤ num then digitCount (num / den) - 1
  else
    let k := digitCount (den / num)
    if den ≤ num * Nat.pow 10 (k - 1) then -(k - 1 : Int) else -(k : Int)

/-- The nearer of the two decimals around the middle with unit `10 ^ power` that read back, if
one does. -/
def Neighbourhood.onGrid? (n : Neighbourhood) (power : Int) : Option Decimal :=
  let up := n.num * Nat.pow 10 (-power).toNat
  let unit := n.den * Nat.pow 10 power.toNat
  let inside (c : Nat) : Bool :=
    if n.closed then n.low * up ≤ c * unit && c * unit ≤ n.high * up
    else n.low * up < c * unit && c * unit < n.high * up
  let floor := n.mid * up / unit
  let below := n.mid * up - floor * unit
  let above := (floor + 1) * unit - n.mid * up
  match inside floor, inside (floor + 1) with
  | false, false => none
  | true, false => some ⟨floor, power⟩
  | false, true => some ⟨floor + 1, power⟩
  | true, true =>
      if below < above then some ⟨floor, power⟩
      else if above < below then some ⟨floor + 1, power⟩
      else some ⟨floor + floor % 2, power⟩

/-- The decimal of the first grid with a hit, among `count` grids from `power` down. -/
def Neighbourhood.firstHit (n : Neighbourhood) (power : Int) : Nat → Decimal
  | 0 => ⟨n.mid, power⟩
  | count + 1 =>
      match n.onGrid? power with
      | some d => d
      | none => n.firstHit (power - 1) count

/-- Move the zeros at the end of the digits into the power. -/
def Decimal.reduce (d : Decimal) : Decimal :=
  if d.digits == 0 || d.digits % 10 != 0 then d
  else Decimal.reduce ⟨d.digits / 10, d.power + 1⟩
termination_by d.digits
decreasing_by simp_all; omega

/-- The shortest decimal of a positive finite double. -/
def shortest (x : Binary64) : Decimal :=
  let n := x.neighbourhood
  (n.firstHit (leadingPower (n.mid * n.num) n.den) 17).reduce

/-- Lay out a decimal. -/
def Decimal.place (d : Decimal) : String :=
  let ds := (Nat.repr d.digits).toList
  let point := ds.length + d.power
  if 0 ≤ d.power && point ≤ 16 then
    String.ofList (ds ++ List.replicate d.power.toNat '0') ++ ".0"
  else if 0 < point && point ≤ 16 then
    String.ofList (ds.take point.toNat ++ '.' :: ds.drop point.toNat)
  else if -5 < point && point ≤ 0 then
    String.ofList ('0' :: '.' :: (List.replicate (-point).toNat '0' ++ ds))
  else
    let front := match ds with
      | [] => []
      | [c] => [c]
      | c :: cs => c :: '.' :: cs
    String.ofList (front ++ ['e']) ++ toString (point - 1)

/-- The written form of a finite double. -/
def text (x : Binary64) : String :=
  let sign := if x.negative then "-" else ""
  sign ++ (if x.isZero then "0.0" else x.shortest.place)

end QueryTyping.Binary64
