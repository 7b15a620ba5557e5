import FlatNet.Token.Lexer

/-!
# Logical lines

Comments are dropped, and a line that begins with a plus sign is appended to the logical line
before it.  A plus sign with no line before it is a fault; what follows it begins a line of its
own.
-/

set_option autoImplicit false

namespace FlatNet

/-- A text cut into logical lines, and its faults. -/
structure Tokenized where
  lines : List (List Token)
  faults : List LexFault

namespace Tokenized

/-- The token is of use to a reader of lines. -/
def isContent (t : Token) : Bool :=
  match t.kind with
  | .comment | .plus | .newline => false
  | _ => true

/-- The token is the mark of a continuation line. -/
def isPlus (t : Token) : Bool :=
  match t.kind with
  | .plus => true
  | _ => false

/-- The logical lines so far, the last one first and each with its tokens, and the continuation
marks that have nothing to continue. -/
structure Gathering where
  lines : List (List Token)
  strays : List Token

/-- Appends the tokens of one line of text. -/
def gather (g : Gathering) (tokens : List Token) : Gathering :=
  let content := tokens.filter isContent
  let strays := if g.lines.isEmpty then g.strays ++ tokens.filter isPlus else g.strays
  let lines :=
    match content, tokens.any isPlus, g.lines with
    | [], _, lines => lines
    | content, true, last :: earlier => (last ++ content) :: earlier
    | content, _, lines => content :: lines
  ⟨lines, strays⟩

/-- The fault of a continuation mark with nothing to continue. -/
def strayFault (t : Token) : LexFault :=
  ⟨.unexpectedToken "continuation" "+", t.line, t.column⟩

/-- The logical lines of a text given by the pieces of its lines. -/
def ofPieces (pieces : List (List Lexeme)) : Tokenized :=
  let gathered := (pieces.map (·.filterMap Lexeme.token?)).foldl gather ⟨[], []⟩
  { lines := gathered.lines.reverse
    faults := pieces.flatten.filterMap Lexeme.fault? ++ gathered.strays.map strayFault }

end Tokenized

/-- The logical lines of a text. -/
def tokenize (text : String) : Tokenized := Tokenized.ofPieces (Lexer.lexText text.toList)

end FlatNet
