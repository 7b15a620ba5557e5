import FlatNet.Number.Decimal

/-!
# Numeric literals

A literal has digits with an optional point among or around them, at least one digit, and an
optional power of ten: `12`, `1.5`, `.5`, `5.`, `2e-3`.  `Literal.read` takes the longest literal
that a text begins with.  The main statement is `Literal.chars_append_read`: the literal's own
characters followed by the rest are the text that was read.
-/

set_option autoImplicit false

namespace FlatNet

/-- The value of a row of decimal digits. -/
def digitsValue (digits : List Char) : Nat :=
  digits.foldl (fun n d => 10 * n + (d.toNat - '0'.toNat)) 0

/-- A power of ten behind a literal: the letter that introduces it, its sign and its digits. -/
structure Power where
  mark : Char
  sign : Option Char
  digits : List Char
  deriving DecidableEq

namespace Power

/-- The characters of the power. -/
def chars (p : Power) : List Char := p.mark :: (p.sign.toList ++ p.digits)

/-- The exponent that the power stands for. -/
def value (p : Power) : Int :=
  if p.sign = some '-' then -(digitsValue p.digits : Int) else digitsValue p.digits

/-- Splits off a sign. -/
def readSign : List Char → Option Char × List Char
  | c :: rest => if c = '+' ∨ c = '-' then (some c, rest) else (none, c :: rest)
  | [] => (none, [])

/-- Splits off a power; a letter `e` that no digits follow does not begin one. -/
def read : List Char → Option Power × List Char
  | [] => (none, [])
  | c :: cs =>
    if c = 'e' ∨ c = 'E' then
      let (sign, rest) := readSign cs
      match rest.takeWhile Char.isDigit with
      | [] => (none, c :: cs)
      | digits => (some ⟨c, sign, digits⟩, rest.dropWhile Char.isDigit)
    else (none, c :: cs)

/-- The sign and what is left are the text. -/
theorem readSign_append (cs : List Char) : (readSign cs).1.toList ++ (readSign cs).2 = cs := by
  cases cs with
  | nil => rfl
  | cons c rest => by_cases h : c = '+' ∨ c = '-' <;> simp [readSign, h]

/-- The power and what is left are the text. -/
theorem read_append (cs : List Char) :
    ((read cs).1.map chars).getD [] ++ (read cs).2 = cs := by
  cases cs with
  | nil => rfl
  | cons c cs =>
    by_cases h : c = 'e' ∨ c = 'E'
    · have hs := readSign_append cs
      cases hd : (readSign cs).2.takeWhile Char.isDigit with
      | nil => simp [read, h, hd]
      | cons d ds =>
        have hsplit := List.takeWhile_append_dropWhile (p := Char.isDigit) (l := (readSign cs).2)
        rw [hd] at hsplit
        simp only [read, h, hd, if_true, Option.map_some, Option.getD_some, chars,
          List.cons_append, List.append_assoc] at hsplit ⊢
        rw [hsplit, hs]
    · simp [read, h]

end Power

/-- A numeric literal without sign: the digits before the point, the digits behind it if there is
one, and the power of ten if there is one. -/
structure Literal where
  whole : List Char
  fraction : Option (List Char)
  power : Option Power
  deriving DecidableEq

namespace Literal

/-- The characters of the literal. -/
def chars (l : Literal) : List Char :=
  l.whole ++ (l.fraction.map ('.' :: ·)).getD [] ++ (l.power.map Power.chars).getD []

/-- The decimal number that the literal stands for behind the given sign. -/
def decimal (negative : Bool) (l : Literal) : Decimal :=
  let fraction := l.fraction.getD []
  { negative := negative
    coefficient := digitsValue (l.whole ++ fraction)
    exponent := (l.power.map Power.value).getD 0 - fraction.length }

/-- Splits off a point and the digits behind it. -/
def readFraction : List Char → Option (List Char) × List Char
  | c :: cs =>
    if c = '.' then (some (cs.takeWhile Char.isDigit), cs.dropWhile Char.isDigit)
    else (none, c :: cs)
  | [] => (none, [])

/-- The longest literal that the text begins with, and what follows it. -/
def read (cs : List Char) : Option (Literal × List Char) :=
  let whole := cs.takeWhile Char.isDigit
  let (fraction, behindFraction) := readFraction (cs.dropWhile Char.isDigit)
  if whole = [] ∧ fraction.getD [] = [] then none
  else
    let (power, rest) := Power.read behindFraction
    some (⟨whole, fraction, power⟩, rest)

/-- The fraction and what is left are the text. -/
theorem readFraction_append (cs : List Char) :
    ((readFraction cs).1.map ('.' :: ·)).getD [] ++ (readFraction cs).2 = cs := by
  cases cs with
  | nil => rfl
  | cons c rest =>
    by_cases h : c = '.'
    · simp [readFraction, h]
    · simp [readFraction, h]

/-- Nothing is lost: the literal's characters and the rest make up the text. -/
theorem chars_append_read {cs rest : List Char} {l : Literal} (h : read cs = some (l, rest)) :
    l.chars ++ rest = cs := by
  simp only [read] at h
  split at h
  · simp at h
  · obtain ⟨rfl, rfl⟩ := by simpa using h
    have hp := Power.read_append (readFraction (cs.dropWhile Char.isDigit)).2
    have hf := readFraction_append (cs.dropWhile Char.isDigit)
    simp only [chars, List.append_assoc]
    rw [hp, hf, List.takeWhile_append_dropWhile]

/-- A literal has characters. -/
theorem chars_ne_nil_of_read {cs rest : List Char} {l : Literal}
    (h : read cs = some (l, rest)) : l.chars ≠ [] := by
  simp only [read] at h
  split at h
  · simp at h
  · rename_i hne
    obtain ⟨rfl, rfl⟩ := by simpa using h
    intro hnil
    simp only [chars, List.append_eq_nil_iff] at hnil
    refine hne ⟨hnil.1.1, ?_⟩
    cases hf : (readFraction (cs.dropWhile Char.isDigit)).1 with
    | none => rfl
    | some ds => rw [hf] at hnil; simp at hnil

/-- What follows a literal is shorter than the text that begins with it. -/
theorem length_rest_lt {cs rest : List Char} {l : Literal} (h : read cs = some (l, rest)) :
    rest.length < cs.length := by
  have happ := congrArg List.length (chars_append_read h)
  have hpos := List.length_pos_iff.mpr (chars_ne_nil_of_read h)
  simp only [List.length_append] at happ
  omega

end Literal

/-- The number written by a text that is a literal with an optional sign, and nothing else. -/
def Binary64.ofLiteral? (cs : List Char) : Option Binary64 :=
  let (sign, body) := Power.readSign cs
  match Literal.read body with
  | some (l, []) => some (l.decimal (sign = some '-')).toBinary64
  | _ => none

end FlatNet
