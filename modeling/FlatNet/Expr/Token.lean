import FlatNet.Expr.Printer
import FlatNet.Number.Literal

/-!
# Tokens of expressions

An expression is written in ASCII: literals without suffixes, names, operators, parentheses and
commas, with blanks between them.  `Token.scan` cuts a text into tokens and gives each the offset
at which it begins.  A character outside the repertoire ends the scan; up to there one character is
one byte, so that offsets count both.
-/

set_option autoImplicit false

namespace FlatNet.Expr

/-- A token of an expression. -/
inductive Token where
  | number (value : Binary64)
  | name (name : String)
  | operator (op : BinaryOp)
  | opening
  | closing
  | comma
  deriving DecidableEq

/-- A token and the offset at which it begins. -/
structure Placed where
  offset : Nat
  token : Token
  deriving DecidableEq

/-- What is wrong with the text of an expression. -/
inductive Fault where
  | malformedNumber
  | malformedLiteral (shown : String)
  | unexpectedCharacter (shown : Char)
  | unexpectedToken (token : Token)
  | unexpectedEnd
  | unclosedGroup
  | unclosedArguments
  deriving DecidableEq

/-- A fault and the offset at which it is found. -/
structure Failure where
  offset : Nat
  fault : Fault
  deriving DecidableEq

namespace Token

/-- The token as a message names it; a number is written without an exponent. -/
def describe : Token → String
  | number value => "number '" ++ value.positionalText ++ "'"
  | name s => "identifier '" ++ s ++ "'"
  | operator op => "operator '" ++ op.sign ++ "'"
  | opening => "'('"
  | closing => "')'"
  | comma => "','"

/-- A blank of an expression. -/
def isBlank (c : Char) : Bool := c == ' ' || c == '\t' || c == '\r' || c == '\n'

/-- The first character of a name. -/
def startsName (c : Char) : Bool := c.isAlpha || c == '_'

/-- A later character of a name. -/
def continuesName (c : Char) : Bool := c.isAlphanum || c == '_'

/-- The token that a sign stands for, and what follows it; two stars are the sign of power. -/
def readSign? : List Char → Option (Token × List Char)
  | '*' :: '*' :: rest => some (operator .pow, rest)
  | '*' :: rest => some (operator .mul, rest)
  | '^' :: rest => some (operator .pow, rest)
  | '+' :: rest => some (operator .add, rest)
  | '-' :: rest => some (operator .sub, rest)
  | '/' :: rest => some (operator .div, rest)
  | '(' :: rest => some (opening, rest)
  | ')' :: rest => some (closing, rest)
  | ',' :: rest => some (comma, rest)
  | _ => none

/-- The first byte of a character's UTF-8 form, shown as the character with that number. -/
def leadByte (c : Char) : Char :=
  let n := c.toNat
  if n < 0x80 then c
  else if n < 0x800 then Char.ofNat (0xC0 + n / 0x40)
  else if n < 0x10000 then Char.ofNat (0xE0 + n / 0x1000)
  else Char.ofNat (0xF0 + n / 0x40000)

/-- The token that the text begins with, and what follows it, where no blank begins the text.  The
number of a literal is read from the characters that belong to it. -/
def readOne (cs : List Char) : Except Fault (Token × List Char) :=
  match cs with
  | [] => .error .unexpectedEnd
  | c :: rest =>
    if c.isDigit || c == '.' then
      match Literal.read (c :: rest) with
      | none => .error .malformedNumber
      | some (l, behind) =>
        match Binary64.ofLiteral? l.chars with
        | some value => .ok (number value, behind)
        | none => .error (.malformedLiteral (String.ofList l.chars))
    else if startsName c then
      .ok (name (String.ofList (c :: rest.takeWhile continuesName)),
        rest.dropWhile continuesName)
    else
      match readSign? (c :: rest) with
      | some found => .ok found
      | none => .error (.unexpectedCharacter (leadByte c))

/-- An operator or a parenthesis takes at least one character. -/
theorem length_readSign?_lt {cs rest : List Char} {t : Token}
    (h : readSign? cs = some (t, rest)) : rest.length < cs.length := by
  unfold readSign? at h
  split at h <;> simp only [Option.some.injEq, Prod.mk.injEq, reduceCtorEq] at h
  all_goals
    obtain ⟨-, rfl⟩ := h
    simp only [List.length_cons]
    omega

/-- What follows a token is shorter than the text that begins with it. -/
theorem length_readOne_lt {cs rest : List Char} {t : Token} (h : readOne cs = .ok (t, rest)) :
    rest.length < cs.length := by
  cases cs with
  | nil => simp [readOne] at h
  | cons c cs =>
    simp only [readOne] at h
    split at h
    · split at h
      · simp at h
      · rename_i l behind hread
        split at h
        · obtain ⟨_, rfl⟩ := by simpa using h
          exact Literal.length_rest_lt hread
        · simp at h
    · split at h
      · obtain ⟨_, rfl⟩ := by simpa using h
        have := (List.dropWhile_suffix continuesName (l := cs)).length_le
        simp only [List.length_cons]; omega
      · split at h
        · rename_i found hsign
          obtain rfl := by simpa using h
          exact length_readSign?_lt hsign
        · simp at h

/-- The tokens of a text that begins at the given offset. -/
def scanFrom (offset : Nat) (cs : List Char) : Except Failure (List Placed) :=
  match cs with
  | [] => .ok []
  | c :: tail =>
    if isBlank c then scanFrom (offset + 1) tail
    else
      match _h : readOne (c :: tail) with
      | .error fault => .error ⟨offset, fault⟩
      | .ok (t, rest) =>
        match scanFrom (offset + ((c :: tail).length - rest.length)) rest with
        | .error failure => .error failure
        | .ok ts => .ok (⟨offset, t⟩ :: ts)
termination_by cs.length
decreasing_by
  · simp
  · exact length_readOne_lt _h

/-- The tokens of a text. -/
def scan (cs : List Char) : Except Failure (List Placed) := scanFrom 0 cs

end Token

namespace Fault

/-- The wording of a fault. -/
def message : Fault → String
  | malformedNumber => "malformed number"
  | malformedLiteral shown => "malformed number '" ++ shown ++ "'"
  | unexpectedCharacter shown => "unexpected character '" ++ shown.toString ++ "'"
  | unexpectedToken token => "unexpected " ++ token.describe
  | unexpectedEnd => "unexpected end of expression"
  | unclosedGroup => "expected ')'"
  | unclosedArguments => "expected ',' or ')' in argument list"

end Fault

namespace Failure

/-- The wording of a failure with its place. -/
def message (f : Failure) : String :=
  "invalid expression at offset " ++ toString f.offset ++ ": " ++ f.fault.message

end Failure

end FlatNet.Expr
