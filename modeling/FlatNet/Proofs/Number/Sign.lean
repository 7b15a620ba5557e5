import FlatNet.Number.Format
import Mathlib.Algebra.Group.Nat.Defs

/-!
# Signs of numbers

A number is given by its magnitude and its sign, and negation turns the sign.  The written form of
a number shows a minus sign exactly if the number is negative and not zero, and behind it the number
without its sign; so the sign of a zero is lost.
-/

set_option autoImplicit false

namespace FlatNet

namespace Binary64

/-- The number without its sign. -/
def abs (x : Binary64) : Binary64 := ofMagnitude false x.magnitude

/-- The magnitude has all bits but the highest one. -/
theorem magnitude_lt (x : Binary64) : x.magnitude < pow2 63 := Nat.mod_lt _ (pow2_pos 63)

/-- The weight of the sign bit, as a power. -/
theorem pow2_63 : pow2 63 = 2 ^ 63 := rfl

/-- The sign is the highest bit. -/
theorem isNegative_eq (x : Binary64) : x.isNegative = decide (2 ^ 63 ≤ x.bits.toNat) := by
  simp only [isNegative, UInt64.le_iff_toNat_le]
  rfl

section Parts

variable {negative : Bool} {m : Nat}

/-- The bits of a number with a given sign and magnitude. -/
theorem toNat_bits_ofMagnitude (h : m < pow2 63) :
    (ofMagnitude negative m).bits.toNat = m + if negative then pow2 63 else 0 := by
  have hpow := pow2_63
  unfold ofMagnitude
  rw [Nat.mod_eq_of_lt h, UInt64.toNat_ofNat']
  apply Nat.mod_eq_of_lt
  cases negative <;> simp <;> omega

/-- The magnitude of a number is the one that it is made from. -/
@[simp] theorem magnitude_ofMagnitude (h : m < pow2 63) :
    (ofMagnitude negative m).magnitude = m := by
  unfold magnitude
  rw [toNat_bits_ofMagnitude h]
  cases negative <;> simp [Nat.mod_eq_of_lt h]

/-- The sign of a number is the one that it is made from. -/
@[simp] theorem isNegative_ofMagnitude (h : m < pow2 63) :
    (ofMagnitude negative m).isNegative = negative := by
  have hpow := pow2_63
  rw [isNegative_eq, toNat_bits_ofMagnitude h]
  cases negative <;> simp <;> omega

end Parts

variable {x y : Binary64}

/-- A number is made up of its sign and its magnitude. -/
theorem ofMagnitude_magnitude (x : Binary64) : ofMagnitude x.isNegative x.magnitude = x := by
  have hpow := pow2_63
  have hbits := x.bits.toNat_lt
  have hnegative := isNegative_eq x
  have hmagnitude : x.magnitude = x.bits.toNat % 2 ^ 63 := rfl
  suffices h : (ofMagnitude x.isNegative x.magnitude).bits = x.bits from congrArg Binary64.mk h
  apply UInt64.toNat.inj
  rw [toNat_bits_ofMagnitude (magnitude_lt _)]
  by_cases h : 2 ^ 63 ≤ x.bits.toNat
  · rw [hnegative, decide_eq_true h, if_pos rfl]
    omega
  · rw [hnegative, decide_eq_false h, if_neg Bool.false_ne_true]
    omega

/-- Numbers with one sign and one magnitude are equal. -/
theorem ext_of_magnitude (hnegative : x.isNegative = y.isNegative)
    (hmagnitude : x.magnitude = y.magnitude) : x = y := by
  rw [← ofMagnitude_magnitude x, ← ofMagnitude_magnitude y, hnegative, hmagnitude]

/-- Negation flips the highest bit. -/
theorem toNat_bits_neg (x : Binary64) : x.neg.bits.toNat = x.bits.toNat ^^^ 2 ^ 63 := rfl

/-- Negation keeps the magnitude. -/
@[simp] theorem magnitude_neg (x : Binary64) : x.neg.magnitude = x.magnitude := by
  unfold magnitude
  rw [toNat_bits_neg, pow2_63, Nat.xor_mod_two_pow, Nat.mod_self, Nat.xor_zero]

/-- Negation turns the sign. -/
@[simp] theorem isNegative_neg (x : Binary64) : x.neg.isNegative = !x.isNegative := by
  have hbits := x.bits.toNat_lt
  have hdiv : x.neg.bits.toNat / 2 ^ 63 = x.bits.toNat / 2 ^ 63 ^^^ 1 := by
    rw [toNat_bits_neg, Nat.xor_div_two_pow, Nat.div_self (by decide)]
  rw [isNegative_eq, isNegative_eq]
  by_cases h : 2 ^ 63 ≤ x.bits.toNat
  · rw [show x.bits.toNat / 2 ^ 63 = 1 by omega, Nat.xor_self] at hdiv
    rw [decide_eq_true h, decide_eq_false (by omega)]
    rfl
  · rw [show x.bits.toNat / 2 ^ 63 = 0 by omega, Nat.zero_xor] at hdiv
    rw [decide_eq_false h, decide_eq_true (by omega)]
    rfl

/-- A number without its sign has the same magnitude. -/
@[simp] theorem magnitude_abs (x : Binary64) : x.abs.magnitude = x.magnitude :=
  magnitude_ofMagnitude x.magnitude_lt

/-- A number without its sign is not negative. -/
@[simp] theorem isNegative_abs (x : Binary64) : x.abs.isNegative = false :=
  isNegative_ofMagnitude x.magnitude_lt

/-- A number that is not negative has no sign to lose. -/
theorem abs_of_not_isNegative (h : x.isNegative = false) : x.abs = x :=
  ext_of_magnitude (by simp [h]) (by simp)

/-- A negative number is the negation of itself without the sign. -/
theorem neg_abs_of_isNegative (h : x.isNegative = true) : x.abs.neg = x :=
  ext_of_magnitude (by simp [h]) (by simp)

/-! ## What depends on the magnitude alone -/

/-- Whether a number is no number at all depends on its magnitude alone. -/
theorem isNaN_congr (h : x.magnitude = y.magnitude) : x.isNaN = y.isNaN := by simp [isNaN, h]

/-- Whether a number is finite depends on its magnitude alone. -/
theorem isFinite_congr (h : x.magnitude = y.magnitude) : x.isFinite = y.isFinite := by
  simp [isFinite, h]

/-- Whether a number is zero depends on its magnitude alone. -/
theorem isZero_congr (h : x.magnitude = y.magnitude) : x.isZero = y.isZero := by simp [isZero, h]

/-- The bits of the exponent are part of the magnitude. -/
theorem exponentField_congr (h : x.magnitude = y.magnitude) :
    x.exponentField = y.exponentField := by simp [exponentField, h]

/-- The bits of the fraction are part of the magnitude. -/
theorem fractionField_congr (h : x.magnitude = y.magnitude) :
    x.fractionField = y.fractionField := by simp [fractionField, h]

/-- The significand depends on the magnitude alone. -/
theorem significand_congr (h : x.magnitude = y.magnitude) : x.significand = y.significand := by
  simp [significand, exponentField_congr h, fractionField_congr h]

/-- The exponent depends on the magnitude alone. -/
theorem exponent_congr (h : x.magnitude = y.magnitude) : x.exponent = y.exponent := by
  simp [exponent, exponentField_congr h]

/-- The whole number that the magnitude stands for, if it does, is that of the magnitude alone. -/
theorem natAbs?_congr (h : x.magnitude = y.magnitude) : x.natAbs? = y.natAbs? := by
  simp [natAbs?, isFinite_congr h, exponent_congr h, significand_congr h]

/-- The digits that a number is written with are those of its magnitude. -/
theorem shortestDigits_congr (h : x.magnitude = y.magnitude) :
    x.shortestDigits = y.shortestDigits := by
  have hreaches : x.reaches = y.reaches := by
    funext k
    simp [reaches, significand_congr h, exponent_congr h]
  have hpoint : x.pointPlace = y.pointPlace := by
    simp [pointPlace, significand_congr h, exponent_congr h, hreaches]
  have hgrid : x.gridPlace = y.gridPlace := by
    funext scale
    simp [gridPlace, significand_congr h, exponent_congr h, fractionField_congr h,
      exponentField_congr h]
  simp [shortestDigits, hpoint, hgrid]

/-! ## The written form -/

/-- The number is written with a minus sign. -/
def showsMinus (x : Binary64) : Bool := x.isNegative && !x.isNaN && !x.isZero

/-- The minus sign, if there is one. -/
def minusText (minus : Bool) : String := if minus then "-" else ""

/-- A number that is not zero is written as a minus sign, if it shows one, and the number without
its sign. -/
theorem writtenWith_eq (form : DecimalDigits → List Char) (hzero : x.isZero = false) :
    x.writtenWith form = minusText x.showsMinus ++ x.abs.writtenWith form := by
  have hmagnitude := magnitude_abs x
  unfold writtenWith showsMinus minusText
  simp only [isNaN_congr hmagnitude, isFinite_congr hmagnitude, isZero_congr hmagnitude,
    shortestDigits_congr hmagnitude, isNegative_abs, hzero]
  cases x.isNaN with
  | true => simp
  | false => cases x.isNegative <;> simp

/-- The significand of zero is zero. -/
theorem significand_of_isZero (h : x.isZero = true) : x.significand = 0 := by
  have hmagnitude : x.magnitude = 0 := by simpa [isZero] using h
  simp [significand, exponentField, fractionField, hmagnitude]

/-- Zero is the whole number zero. -/
theorem natAbs?_of_isZero (h : x.isZero = true) : x.natAbs? = some 0 := by
  have hfinite : x.isFinite = true := by
    have hmagnitude : x.magnitude = 0 := by simpa [isZero] using h
    rw [isFinite, hmagnitude]
    decide
  unfold natAbs?
  rw [hfinite, significand_of_isZero h]
  simp

/-- Only zero has the significand zero. -/
theorem isZero_of_significand (h : x.significand = 0) : x.isZero = true := by
  have hpos := pow2_pos 52
  have hfields := Nat.div_add_mod x.magnitude (pow2 52)
  unfold significand exponentField fractionField at h
  split at h
  · rename_i hexponent
    rw [hexponent, h] at hfields
    simp [isZero]
    omega
  · omega

/-- A number that is the whole number zero has the significand zero. -/
theorem significand_of_natAbs? (h : x.natAbs? = some 0) : x.significand = 0 := by
  unfold natAbs? at h
  split at h
  · simp at h
  · split at h
    · rcases Nat.mul_eq_zero.1 (Option.some.inj h) with hzero | hzero
      · exact hzero
      · exact absurd hzero (Nat.ne_of_gt (pow2_pos _))
    · dsimp only at h
      split at h
      · rename_i hmod
        simp at h
        have hpos := pow2_pos (-x.exponent).toNat
        have hlt : x.significand < pow2 (-x.exponent).toNat := by
          rcases h with h | h
          · omega
          · exact h
        rw [Nat.mod_eq_of_lt hlt] at hmod
        exact hmod
      · simp at h

/-- A number that is not whole is not zero. -/
theorem isZero_of_natAbs?_eq_none (h : x.natAbs? = none) : x.isZero = false := by
  refine Bool.eq_false_iff.2 fun hzero => ?_
  rw [natAbs?_of_isZero hzero] at h
  simp at h

/-- A number with an absolute value is zero if that is zero. -/
theorem isZero_of_natAbs? {n : Nat} (h : x.natAbs? = some n) : x.isZero = (n == 0) := by
  cases hzero : x.isZero with
  | true =>
    rw [natAbs?_of_isZero hzero] at h
    rw [← Option.some.inj h]
    rfl
  | false =>
    refine (beq_eq_false_iff_ne.2 fun hn => ?_).symm
    rw [hn] at h
    rw [isZero_of_significand (significand_of_natAbs? h)] at hzero
    exact absurd hzero (by simp)

/-- What is a whole number is a number. -/
theorem not_isNaN_of_natAbs? {n : Nat} (h : x.natAbs? = some n) : x.isNaN = false := by
  refine Bool.eq_false_iff.2 fun hnan => ?_
  have hinfinite : infinityMagnitude < x.magnitude := by simpa [isNaN] using hnan
  unfold natAbs? at h
  rw [if_pos (by simp [isFinite]; omega)] at h
  simp at h

/-- A number is written as its absolute value behind a minus sign, if it has one. -/
theorem text_eq (x : Binary64) : x.text = minusText x.showsMinus ++ x.abs.text := by
  have hmagnitude := magnitude_abs x
  unfold text
  rw [natAbs?_congr hmagnitude]
  cases hnat : x.natAbs? with
  | none =>
    have hzero := isZero_of_natAbs?_eq_none hnat
    dsimp only
    rw [isNaN_congr hmagnitude, hmagnitude, positionalText, exponentialText, positionalText,
      exponentialText, writtenWith_eq _ hzero, writtenWith_eq _ hzero]
    split
    · rfl
    · split <;> rfl
  | some n =>
    have hnan := not_isNaN_of_natAbs? hnat
    have hzero := isZero_of_natAbs? hnat
    dsimp only
    split
    · unfold integerText showsMinus minusText
      rw [hnan, hzero, isNegative_abs]
      cases x.isNegative <;> by_cases hn : n = 0 <;> simp [hn]
    · rename_i hlarge
      have hne : n ≠ 0 := by
        have hpos := pow10_pos 15
        omega
      rw [beq_eq_false_iff_ne.2 hne] at hzero
      rw [exponentialText, writtenWith_eq _ hzero, exponentialText]

end Binary64

end FlatNet
