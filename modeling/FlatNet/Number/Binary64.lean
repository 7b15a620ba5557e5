import FlatNet.Number.Power

/-!
# Binary floating-point numbers

A `Binary64` is a word of the 64-bit binary interchange format.  Numbers are only stored, negated,
compared and printed here, never added, so a word is read through its fields: a finite one stands
for `± significand · 2 ^ exponent`.  All statements about values are statements about these
natural numbers and integers.
-/

set_option autoImplicit false

namespace FlatNet

/-- A number in the 64-bit binary interchange format, given by its bit pattern. -/
structure Binary64 where
  bits : UInt64
  deriving DecidableEq, Inhabited

namespace Binary64

/-- The word whose only bit is the sign. -/
def signBit : UInt64 := 0x8000000000000000

/-- The sign bit is set. -/
def isNegative (x : Binary64) : Bool := signBit ≤ x.bits

/-- The bit pattern without its sign; among numbers of one sign it grows with the absolute
value. -/
def magnitude (x : Binary64) : Nat := x.bits.toNat % pow2 63

/-- The magnitude of the infinities; the numbers below it are the finite ones. -/
def infinityMagnitude : Nat := 2047 * pow2 52

/-- The number of the given sign and magnitude. -/
def ofMagnitude (negative : Bool) (magnitude : Nat) : Binary64 :=
  ⟨UInt64.ofNat (magnitude % pow2 63 + if negative then pow2 63 else 0)⟩

/-- The zero of the given sign. -/
def zero (negative : Bool) : Binary64 := ofMagnitude negative 0

/-- The infinity of the given sign. -/
def infinity (negative : Bool) : Binary64 := ofMagnitude negative infinityMagnitude

/-- Not a number. -/
def isNaN (x : Binary64) : Bool := infinityMagnitude < x.magnitude

/-- Neither infinite nor undefined. -/
def isFinite (x : Binary64) : Bool := x.magnitude < infinityMagnitude

/-- A zero of either sign. -/
def isZero (x : Binary64) : Bool := x.magnitude == 0

/-- The number with the opposite sign; all other bits are kept, also of what is not a number. -/
def neg (x : Binary64) : Binary64 := ⟨x.bits ^^^ signBit⟩

/-- The biased exponent field. -/
def exponentField (x : Binary64) : Nat := x.magnitude / pow2 52

/-- The fraction field. -/
def fractionField (x : Binary64) : Nat := x.magnitude % pow2 52

/-- The integer `m` of a finite number `± m · 2 ^ q`. -/
def significand (x : Binary64) : Nat :=
  if x.exponentField = 0 then x.fractionField else pow2 52 + x.fractionField

/-- The integer `q` of a finite number `± m · 2 ^ q`. -/
def exponent (x : Binary64) : Int := (max x.exponentField 1 : Nat) - 1075

/-- The numbers have one value: zeros of both signs are equal, and what is not a number equals
nothing, not even itself. -/
def sameValue (x y : Binary64) : Bool :=
  !x.isNaN && !y.isNaN && (x == y || (x.isZero && y.isZero))

/-- The absolute value of a finite number that is an integer. -/
def natAbs? (x : Binary64) : Option Nat :=
  if !x.isFinite then none
  else if 0 ≤ x.exponent then some (x.significand * pow2 x.exponent.toNat)
  else
    let unit := pow2 (-x.exponent).toNat
    if x.significand % unit = 0 then some (x.significand / unit) else none

end Binary64

end FlatNet
