import FlatNet.Text.CharTable

/-!
# Classes of characters

The classes that the netlist language is written in: letters, digits and blanks of any script.
Every class is stated separately for ASCII, where it is a few comparisons, and for the other
characters, where it is a table of ranges.  The main statements say that an ASCII character
belongs to a class exactly when it belongs to the ASCII part of it.
-/

set_option autoImplicit false

namespace FlatNet.Text

/-- The number `n` lies in one of the closed ranges. -/
def inRanges (ranges : List (Nat × Nat)) (n : Nat) : Bool :=
  ranges.any fun range => decide (range.1 ≤ n ∧ n ≤ range.2)

/-- The character belongs to the ASCII repertoire. -/
def isAscii (c : Char) : Bool := c.toNat < 0x80

/-- A letter of any script. -/
def isAlphabetic (c : Char) : Bool :=
  if isAscii c then c.isAlpha else inRanges alphabeticRanges c.toNat

/-- A digit or another number sign of any script. -/
def isNumeric (c : Char) : Bool :=
  if isAscii c then c.isDigit else inRanges numericRanges c.toNat

/-- A letter, a digit or another number sign of any script. -/
def isAlphanumeric (c : Char) : Bool := isAlphabetic c || isNumeric c

/-- A character of a name. -/
def isWordChar (c : Char) : Bool := isAlphanumeric c || c == '_'

/-- White space of any script; among ASCII these are the space and the five controls from
the tab to the carriage return. -/
def isWhiteSpace (c : Char) : Bool :=
  if isAscii c then c == ' ' || decide (9 ≤ c.toNat ∧ c.toNat ≤ 13)
  else inRanges whiteSpaceRanges c.toNat

/-- A character with upper, lower or title case. -/
def isCased (c : Char) : Bool :=
  if isAscii c then c.isAlpha else inRanges casedRanges c.toNat

/-- A character that is passed over when the surroundings of a letter are examined for case. -/
def isCaseIgnorable (c : Char) : Bool :=
  if isAscii c then c == '\x27' || c == '.' || c == ':' || c == '^' || c == '\x60'
  else inRanges caseIgnorableRanges c.toNat

/-- The text without the white space around it. -/
def trim (cs : List Char) : List Char :=
  ((cs.dropWhile isWhiteSpace).reverse.dropWhile isWhiteSpace).reverse

/-- In ASCII the alphabetic characters are the letters. -/
theorem isAlphabetic_of_isAscii {c : Char} (h : isAscii c = true) :
    isAlphabetic c = c.isAlpha := by simp [isAlphabetic, h]

/-- In ASCII the numeric characters are the digits. -/
theorem isNumeric_of_isAscii {c : Char} (h : isAscii c = true) :
    isNumeric c = c.isDigit := by simp [isNumeric, h]

/-- In ASCII the alphanumeric characters are letters and digits. -/
theorem isAlphanumeric_of_isAscii {c : Char} (h : isAscii c = true) :
    isAlphanumeric c = c.isAlphanum := by
  simp [isAlphanumeric, isAlphabetic_of_isAscii h, isNumeric_of_isAscii h, Char.isAlphanum]

end FlatNet.Text
