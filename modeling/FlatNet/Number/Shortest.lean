import FlatNet.Number.Decimal

/-!
# Shortest decimal digits

The shortest digits of a binary number are the fewest that read back as that number, and among
those the nearest to it.  A finite number `m · 2 ^ q` is read back from every decimal in its
interval, which reaches half-way to its neighbours and contains its ends exactly when `m` is even.
For one digit, two digits and so on the two neighbours of the value on the decimal grid are tested;
the first grid with a neighbour in the interval wins.
-/

set_option autoImplicit false

namespace FlatNet

/-- Decimal digits with the place of the point: the value is `0.d₁d₂… · 10 ^ point`. -/
structure DecimalDigits where
  digits : List Char
  point : Int
  deriving DecidableEq

namespace DecimalDigits

/-- The digits of `n · 10 ^ scale`, without zeros at the end. -/
def ofNat (n : Nat) (scale : Int) : DecimalDigits :=
  let all := Nat.toDigits 10 n
  ⟨(all.reverse.dropWhile (· == '0')).reverse, all.length + scale⟩

end DecimalDigits

namespace Binary64

/-- A number scaled to a decimal grid: it stands between the grid points `below` and `below + 1`,
`above` of `unit` parts up from the lower one, and decimals that read back as it lie no further
than `reachDown` and `reachUp` parts away. -/
structure GridPlace where
  below : Nat
  above : Nat
  unit : Nat
  reachDown : Nat
  reachUp : Nat
  closed : Bool

/-- A distance within a reach, which counts itself when the interval is closed. -/
def within (closed : Bool) (distance reach : Nat) : Bool :=
  if closed then distance ≤ reach else distance < reach

/-- The place of a finite number on the grid of multiples of `10 ^ scale`.  The neighbour below a
power of two is half as far away as the one above. -/
def gridPlace (x : Binary64) (scale : Int) : GridPlace :=
  let shift := x.exponent - 2
  let weight := pow2 shift.toNat * pow10 (-scale).toNat
  let unit := pow10 scale.toNat * pow2 (-shift).toNat
  let value := 4 * x.significand * weight
  { below := value / unit
    above := value % unit
    unit := unit
    reachDown := (if x.fractionField = 0 ∧ 1 < x.exponentField then 1 else 2) * weight
    reachUp := 2 * weight
    closed := x.significand % 2 == 0 }

/-- The grid point that reads back as the number, the nearer one if both neighbours do, and the
upper one of two equally near. -/
def GridPlace.choice? (p : GridPlace) : Option Nat :=
  let down := within p.closed p.above p.reachDown
  let up := within p.closed (p.unit - p.above) p.reachUp
  if down && up then some (if 2 * p.above < p.unit then p.below else p.below + 1)
  else if down then some p.below
  else if up then some (p.below + 1)
  else none

/-- The value of a finite number is at least `10 ^ k`. -/
def reaches (x : Binary64) (k : Int) : Bool :=
  pow10 k.toNat * pow2 (-x.exponent).toNat ≤
    x.significand * pow2 x.exponent.toNat * pow10 (-k).toNat

/-- The place of the point of a positive finite number, so that its value lies between
`10 ^ (point - 1)` and `10 ^ point`.  The binary logarithm gives it up to one place. -/
def pointPlace (x : Binary64) : Int :=
  let guess := (Nat.log2 x.significand + x.exponent) * 30103 / 100000
  if x.reaches (guess + 1) then guess + 2
  else if x.reaches guess then guess + 1
  else guess

/-- The shortest digits of a positive finite number. -/
def shortestDigits (x : Binary64) : DecimalDigits :=
  let point := x.pointPlace
  let attempt (count : Nat) : Option DecimalDigits :=
    let scale := point - ((count : Int) + 1)
    ((x.gridPlace scale).choice?).map (DecimalDigits.ofNat · scale)
  ((List.range 17).findSome? attempt).getD ⟨[], point⟩

end Binary64

end FlatNet
