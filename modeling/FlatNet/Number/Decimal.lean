import FlatNet.Number.Binary64

/-!
# Decimal numbers and their rounding

A `Decimal` is `± coefficient · 10 ^ exponent`.  Its nearest `Binary64` is found by exact integer
arithmetic: the value is written as a fraction, the exponent of the last place is chosen, and the
fraction is rounded to a whole number of such places, a half going to the even neighbour.
-/

set_option autoImplicit false

namespace FlatNet

/-- The nearest integer to `num / den`, a half going to the even one. -/
def roundHalfEven (num den : Nat) : Nat :=
  let whole := num / den
  let rest := num % den
  if 2 * rest < den then whole
  else if den < 2 * rest then whole + 1
  else if whole % 2 = 0 then whole else whole + 1

/-- The integer `e` with `2 ^ e ≤ num / den < 2 ^ (e + 1)`, for positive `num` and `den`. -/
def floorLog2 (num den : Nat) : Int :=
  let guess : Int := (Nat.log2 num : Int) - (Nat.log2 den : Int)
  if den * pow2 guess.toNat ≤ num * pow2 (-guess).toNat then guess else guess - 1

namespace Binary64

/-- The exponent of the last place that a fraction is rounded to: 53 places are kept, but none
below `2 ^ (-1074)`. -/
def lastPlace (num den : Nat) : Int := max (floorLog2 num den - 52) (-1074)

/-- The number nearest to `± num / den`; beyond the largest finite one it is infinite. -/
def ofFraction (negative : Bool) (num den : Nat) : Binary64 :=
  if num = 0 then zero negative
  else
    let q := lastPlace num den
    let m := roundHalfEven (num * pow2 (-q).toNat) (den * pow2 q.toNat)
    ofMagnitude negative (min ((q + 1074).toNat * pow2 52 + m) infinityMagnitude)

end Binary64

/-- The number `± coefficient · 10 ^ exponent`. -/
structure Decimal where
  negative : Bool
  coefficient : Nat
  exponent : Int
  deriving DecidableEq

namespace Decimal

/-- The number of decimal digits, one for zero. -/
def digitCount (n : Nat) : Nat := (Nat.toDigits 10 n).length

/-- The nearest binary number.  Values from `10 ^ 310` up are beyond every finite one, and
values below `10 ^ (-330)` are less than half the smallest one. -/
def toBinary64 (d : Decimal) : Binary64 :=
  let top : Int := digitCount d.coefficient + d.exponent
  if d.coefficient = 0 || top < -330 then Binary64.zero d.negative
  else if 310 < top then Binary64.infinity d.negative
  else
    Binary64.ofFraction d.negative (d.coefficient * pow10 d.exponent.toNat)
      (pow10 (-d.exponent).toNat)

end Decimal

end FlatNet
