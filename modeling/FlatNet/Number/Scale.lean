import FlatNet.Number.Literal
import FlatNet.Text.CharClass

/-!
# Magnitude suffixes

One letter behind a literal scales it: `2.2u` is `2.2e-6` and `10M` is `10e6`.  The letters are
case-sensitive.  `normalizeScales` brings every suffixed literal of a text into its exponent
form, so that the text can be read by a reader that knows no suffixes.
-/

set_option autoImplicit false

namespace FlatNet

/-- The magnitude suffixes and the powers of ten that they stand for. -/
def scaleSuffixes : List (Char × Int) :=
  [('y', -24), ('z', -21), ('a', -18), ('f', -15), ('p', -12), ('n', -9), ('u', -6), ('m', -3),
   ('k', 3), ('M', 6), ('G', 9), ('T', 12), ('P', 15)]

/-- The power of ten of a suffix. -/
def scaleExponent? (c : Char) : Option Int := scaleSuffixes.lookup c

/-- A power of ten in the form that stands behind a literal. -/
def exponentChars (e : Int) : List Char := 'e' :: (toString e).toList

/-- A literal does not begin right behind this character, which would belong to one word or
literal with it. -/
def bindsLiteral (c : Char) : Bool := Text.isWordChar c || c == '.'

/-- The literal in exponent form and the text behind its suffix; without a suffix, or if it has a
power already, the literal stays as it is. -/
def scaledLiteral (l : Literal) (rest : List Char) : List Char × List Char :=
  match l.power, rest with
  | none, c :: behind =>
    match scaleExponent? c with
    | some e => (l.chars ++ exponentChars e, behind)
    | none => (l.chars, rest)
  | _, _ => (l.chars, rest)

/-- Writing a suffix as a power does not lengthen what is left. -/
theorem length_scaledLiteral_le (l : Literal) (rest : List Char) :
    (scaledLiteral l rest).2.length ≤ rest.length := by
  unfold scaledLiteral
  split
  · split <;> simp
  · simp

/-- Expands the suffixed literals of a text; `free` says that a literal may begin at its first
character. -/
def normalizeScalesFrom (free : Bool) (cs : List Char) : List Char :=
  match cs with
  | [] => []
  | c :: tail =>
    if free then
      match _h : Literal.read (c :: tail) with
      | some (l, rest) =>
        (scaledLiteral l rest).1 ++ normalizeScalesFrom false (scaledLiteral l rest).2
      | none => c :: normalizeScalesFrom (!bindsLiteral c) tail
    else c :: normalizeScalesFrom (!bindsLiteral c) tail
termination_by cs.length
decreasing_by
  · have h₁ := length_scaledLiteral_le l rest
    have h₂ := Literal.length_rest_lt _h
    omega
  · simp
  · simp

/-- The text with every suffixed literal in exponent form. -/
def normalizeScales (cs : List Char) : List Char := normalizeScalesFrom true cs

end FlatNet
