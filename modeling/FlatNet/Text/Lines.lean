/-!
# Lines of a text

`splitLines` cuts a text at its newlines; joining the pieces again gives the text back.
`quotedLines` is the form in which lines are shown to a reader: without line endings, and without
the empty piece behind a final newline.
-/

set_option autoImplicit false

namespace FlatNet.Text

/-- Puts a character in front of the first piece. -/
def consHead (c : Char) : List (List Char) → List (List Char)
  | piece :: pieces => (c :: piece) :: pieces
  | [] => [[c]]

/-- The pieces of a text between its newlines, one more than there are newlines. -/
def splitLines : List Char → List (List Char)
  | [] => [[]]
  | c :: cs => if c = '\n' then [] :: splitLines cs else consHead c (splitLines cs)

/-- A line without the carriage return that ends it, if one does. -/
def dropReturn (line : List Char) : List Char :=
  if line.getLast? = some '\r' then line.dropLast else line

/-- The pieces as they are shown: a carriage return before a newline belongs to the line ending,
and an empty last piece is no line. -/
def shownLines : List (List Char) → List (List Char)
  | [] => []
  | [last] => if last = [] then [] else [last]
  | line :: next :: rest => dropReturn line :: shownLines (next :: rest)

/-- The lines of a text as they are shown to a reader. -/
def quotedLines (text : String) : Array String :=
  ((shownLines (splitLines text.toList)).map String.ofList).toArray

/-- A character put in front leaves at least one line. -/
theorem consHead_ne_nil (c : Char) (pieces : List (List Char)) : consHead c pieces ≠ [] := by
  cases pieces <;> simp [consHead]

/-- Every text has at least one line. -/
theorem splitLines_ne_nil (cs : List Char) : splitLines cs ≠ [] := by
  cases cs with
  | nil => simp [splitLines]
  | cons c cs => by_cases h : c = '\n' <;> simp [splitLines, h, consHead_ne_nil]

/-- Joining the pieces with newlines gives the text back. -/
theorem intercalate_splitLines (cs : List Char) :
    List.intercalate ['\n'] (splitLines cs) = cs := by
  induction cs with
  | nil => simp [splitLines, List.intercalate]
  | cons c cs ih =>
    cases hs : splitLines cs with
    | nil => exact absurd hs (splitLines_ne_nil cs)
    | cons piece pieces =>
      rw [hs] at ih
      by_cases h : c = '\n'
      · subst h
        simp only [splitLines, if_true, hs]
        simpa [List.intercalate, List.intersperse] using ih
      · simp only [splitLines, h, if_false, hs, consHead]
        cases pieces with
        | nil => simpa [List.intercalate] using ih
        | cons next rest => simpa [List.intercalate, List.intersperse] using ih

end FlatNet.Text
