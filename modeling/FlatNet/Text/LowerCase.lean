import FlatNet.Text.CharClass

/-!
# Lower case

The full lower-case form of a text.  It is taken character by character, with two exceptions:
a capital dotted I becomes two characters, and a capital sigma at the end of a word becomes the
final form of that letter.
-/

set_option autoImplicit false

namespace FlatNet.Text

/-- The image of the code point `n` under a run, if the run maps it. -/
def LowerRun.image? (run : LowerRun) (n : Nat) : Option Nat :=
  if run.first ≤ n ∧ n ≤ run.last ∧ (n - run.first) % run.step = 0 then
    some (run.image + (n - run.first))
  else none

/-- The lower-case form of a single character, surroundings apart. -/
def lowerChar (c : Char) : List Char :=
  if isAscii c then [c.toLower]
  else if c == 'İ' then ['i', '\u0307']
  else match lowerRuns.findSome? (·.image? c.toNat) with
    | some n => [Char.ofNat n]
    | none => [c]

/-- The first character that matters for case is a cased one. -/
def meetsCased (cs : List Char) : Bool :=
  match cs.dropWhile isCaseIgnorable with
  | c :: _ => isCased c
  | [] => false

/-- The lower-case form of a text that stands after the characters `before`, nearest first. -/
def lowerCaseAfter (before : List Char) : List Char → List Char
  | [] => []
  | c :: rest =>
    let image :=
      if c == 'Σ' then [if meetsCased before && !meetsCased rest then 'ς' else 'σ']
      else lowerChar c
    image ++ lowerCaseAfter (c :: before) rest

/-- The lower-case form of a text. -/
def lowerCase (cs : List Char) : List Char := lowerCaseAfter [] cs

end FlatNet.Text
