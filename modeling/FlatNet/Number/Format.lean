import FlatNet.Number.Shortest

/-!
# The written form of numbers

Numbers are written with their shortest digits.  A number inside an expression is written as an
integer when it is one below `10 ^ 15`, with an exponent from `10 ^ 15` up and below one
thousandth, and positionally in between.  The positional form alone is used where a number is
named in a message.
-/

set_option autoImplicit false

namespace FlatNet

namespace DecimalDigits

/-- The digits with a decimal point and no exponent; the point is left out behind the last
digit. -/
def positional (d : DecimalDigits) : List Char :=
  if d.point ≤ 0 then
    '0' :: '.' :: (List.replicate (-d.point).toNat '0' ++ d.digits)
  else if d.digits.length ≤ d.point.toNat then
    d.digits ++ List.replicate (d.point.toNat - d.digits.length) '0'
  else
    d.digits.take d.point.toNat ++ '.' :: d.digits.drop d.point.toNat

/-- The digits with the point behind the first one and a power of ten. -/
def exponential (d : DecimalDigits) : List Char :=
  let power := (toString (d.point - 1)).toList
  match d.digits with
  | [] => '0' :: 'e' :: power
  | [digit] => digit :: 'e' :: power
  | digit :: rest => digit :: '.' :: (rest ++ 'e' :: power)

end DecimalDigits

namespace Binary64

/-- The number written by `form`, with its sign; zero, infinity and what is not a number have
fixed forms. -/
def writtenWith (form : DecimalDigits → List Char) (x : Binary64) : String :=
  if x.isNaN then "NaN"
  else
    let sign := if x.isNegative then "-" else ""
    let body :=
      if !x.isFinite then "inf"
      else if x.isZero then "0"
      else String.ofList (form x.shortestDigits)
    sign ++ body

/-- The number without an exponent. -/
def positionalText (x : Binary64) : String := x.writtenWith DecimalDigits.positional

/-- The number with an exponent. -/
def exponentialText (x : Binary64) : String := x.writtenWith DecimalDigits.exponential

/-- The binary number nearest to one thousandth. -/
def thousandth : Binary64 := Decimal.toBinary64 ⟨false, 1, -3⟩

/-- The number `10 ^ 15`. -/
def quadrillion : Binary64 := Decimal.toBinary64 ⟨false, 1, 15⟩

/-- An integer of either sign; the zeros are written without one. -/
def integerText (negative : Bool) (absolute : Nat) : String :=
  if negative && absolute != 0 then "-" ++ toString absolute else toString absolute

/-- The form of a number inside an expression. -/
def text (x : Binary64) : String :=
  match x.natAbs? with
  | some n => if n < pow10 15 then integerText x.isNegative n else x.exponentialText
  | none =>
    if x.isNaN then x.positionalText
    else if x.magnitude < thousandth.magnitude || quadrillion.magnitude ≤ x.magnitude then
      x.exponentialText
    else x.positionalText

end Binary64

end FlatNet
