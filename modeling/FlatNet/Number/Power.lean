/-!
# Powers of two and ten

The natural powers by which numbers are scaled when they are read, stored and written.
-/

set_option autoImplicit false

namespace FlatNet

/-- The power of two with exponent `n`. -/
def pow2 (n : Nat) : Nat := Nat.pow 2 n

/-- The power of ten with exponent `n`. -/
def pow10 (n : Nat) : Nat := Nat.pow 10 n

/-- No power of two is zero. -/
theorem pow2_pos (n : Nat) : 0 < pow2 n := Nat.pow_pos (by decide)

/-- No power of ten is zero. -/
theorem pow10_pos (n : Nat) : 0 < pow10 n := Nat.pow_pos (by decide)

end FlatNet
