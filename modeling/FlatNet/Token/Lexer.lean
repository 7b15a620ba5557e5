import FlatNet.Number.Scale
import FlatNet.Text.LowerCase
import FlatNet.Text.Lines
import FlatNet.Token.Basic

/-!
# Cutting text into tokens

No token reaches over the end of a line, so a text is cut line by line.  Two things are special at
the beginning of a line: a star makes it a comment and a plus sign a continuation; and the first
line that is neither blank nor a comment is the title.  Behind that, a line is read piece by piece,
every piece giving one token or one fault.

Each reader returns what it leaves of the line.  The main statement is `length_readPiece_lt`: a
piece takes at least one character.
-/

set_option autoImplicit false

namespace FlatNet

/-- What a reader takes from the beginning of a line, and what it leaves. -/
structure Taken (α : Type) where
  result : α
  rest : List Char

/-- A piece of a line: a token, or a problem with its distance from the beginning of the piece. -/
inductive Piece where
  | token (kind : TokenKind) (text : String)
  | fault (problem : Problem) (distance : Nat)

namespace Lexer

open Text (isAlphabetic isAlphanumeric isWordChar trim lowerCase)

/-- A character that separates pieces. -/
def isBlank (c : Char) : Bool := c == ' ' || c == '\t' || c == '\r'

/-- A character that may stand around an equals sign. -/
def isGap (c : Char) : Bool := c == ' ' || c == '\t'

/-- A character of a path. -/
def isPathChar (c : Char) : Bool :=
  isAlphanumeric c || c == '_' || c == '.' || c == '/' || c == '\\' || c == '-' || c == '~' ||
    c == ':'

/-- A character that can begin a path but no other piece. -/
def startsPath (c : Char) : Bool := c == '.' || c == '/' || c == '\\' || c == '~'

/-- A character that begins a word. -/
def startsWord (c : Char) : Bool := isAlphabetic c || c == '_'

/-- What follows a word continues it to a path. -/
def continuesPath : List Char → Bool
  | c :: d :: _ =>
    (c == '.' || c == '/' || c == '\\') && (isAlphanumeric d || d == '_' || d == '.' || d == '/')
  | _ => false

/-- The text up to a closing mark, and what stands behind the mark. -/
def readUntil (mark : Char) (cs : List Char) : Option (Taken (List Char)) :=
  match cs.dropWhile (· != mark) with
  | [] => none
  | _ :: rest => some ⟨cs.takeWhile (· != mark), rest⟩

/-- A quoted text, behind its opening quote. -/
def readQuoted (cs : List Char) : Taken (Except Problem (List Char)) :=
  match readUntil '"' cs with
  | some taken => ⟨.ok taken.result, taken.rest⟩
  | none => ⟨.error .unterminatedString, []⟩

/-- The expression that a text stands for once its magnitude suffixes are expanded; a fault
quotes the text as `shown`. -/
def readExpression (shown raw : List Char) : Except Problem (String × Expr) :=
  let normalized := normalizeScales raw
  match Expr.parseChars normalized with
  | .ok e => .ok (String.ofList normalized, e)
  | .error failure => .error (.invalidExpression (String.ofList shown) failure.fault.message)

/-- An expression in braces, behind its opening brace. -/
def readBraces (cs : List Char) : Taken (Except Problem (String × Expr)) :=
  match readUntil '\x7d' cs with
  | some taken => ⟨readExpression (trim taken.result) taken.result, taken.rest⟩
  | none => ⟨.error .unterminatedExpression, []⟩

/-- The kind of a literal without suffix. -/
def literalKind (l : Literal) : TokenKind :=
  match l.power, l.fraction with
  | some _, _ => .scientific
  | none, some _ => .float
  | none, none => .integer

/-- A literal with an optional sign before it and an optional suffix behind it; a suffix behind a
power of ten is a fault. -/
def readNumber? (cs : List Char) : Option (Taken (Except Problem (TokenKind × List Char))) :=
  let (sign, body) := Power.readSign cs
  match Literal.read body with
  | none => none
  | some (l, rest) =>
    let literal := sign.toList ++ l.chars
    let plain := some ⟨.ok (literalKind l, literal), rest⟩
    match rest with
    | [] => plain
    | c :: behind =>
      match scaleExponent? c with
      | none => plain
      | some e =>
        if l.power.isSome then
          some ⟨.error (.malformedNumber (String.ofList (literal ++ [c]))), behind⟩
        else some ⟨.ok (.scaled, literal ++ exponentChars e), behind⟩

/-- The value of a parameter: an expression in braces or quotes, a name or a literal.  A problem
is placed at the beginning of the value, except that a value that is missing altogether is a
problem of the name. -/
inductive ValueReading where
  | value (value : Expr)
  | faulty (problem : Problem)
  | missing

/-- Reads the value of a parameter. -/
def readValue (cs : List Char) : Taken ValueReading :=
  match cs with
  | [] => ⟨.missing, []⟩
  | c :: tail =>
    if c == '\x7b' then
      match readBraces tail with
      | ⟨.ok (_, e), rest⟩ => ⟨.value e, rest⟩
      | ⟨.error problem, rest⟩ => ⟨.faulty problem, rest⟩
    else if c == '"' then
      match readQuoted tail with
      | ⟨.ok raw, rest⟩ =>
        match readExpression raw raw with
        | .ok (_, e) => ⟨.value e, rest⟩
        | .error problem => ⟨.faulty problem, rest⟩
      | ⟨.error problem, rest⟩ => ⟨.faulty problem, rest⟩
    else if startsWord c then
      ⟨.value (.sym (String.ofList (cs.takeWhile isWordChar))), cs.dropWhile isWordChar⟩
    else
      match readNumber? cs with
      | none => ⟨.missing, cs⟩
      | some ⟨.error problem, rest⟩ => ⟨.faulty problem, rest⟩
      | some ⟨.ok (_, literal), rest⟩ =>
        match Binary64.ofLiteral? literal with
        | some v => ⟨.value (.num v), rest⟩
        | none => ⟨.faulty (.malformedNumber (String.ofList literal)), rest⟩

/-- The beginning of the value behind an equals sign, if that is what follows a name; two equals
signs are none. -/
def valueStart? (afterName : List Char) : Option (List Char) :=
  match afterName.dropWhile isGap with
  | '=' :: '=' :: _ => none
  | '=' :: rest => some (rest.dropWhile isGap)
  | _ => none

/-- A piece that begins with a word: a parameter definition, a path or an identifier. -/
def readWord (cs : List Char) : Taken Piece :=
  let word := cs.takeWhile isWordChar
  let after := cs.dropWhile isWordChar
  let name := String.ofList word
  match valueStart? after with
  | some start =>
    match readValue start with
    | ⟨.value e, rest⟩ => ⟨.token (.paramDef name e) (name ++ "=" ++ e.text), rest⟩
    | ⟨.faulty problem, rest⟩ => ⟨.fault problem (cs.length - start.length), rest⟩
    | ⟨.missing, rest⟩ => ⟨.fault (.missingParamValue name) 0, rest⟩
  | none =>
    if continuesPath after then
      ⟨.token .fileName (String.ofList (cs.takeWhile isPathChar)), cs.dropWhile isPathChar⟩
    else ⟨.token .identifier name, after⟩

/-- A token from the result of a reader whose problem is placed at the beginning. -/
def piece {α : Type} (make : α → Piece) : Except Problem α → Piece
  | .ok a => make a
  | .error problem => .fault problem 0

/-- The piece that the character `c` begins, `tail` being the rest of the line.  A command is only
recognised as the first piece of its line. -/
def readPiece (first : Bool) (c : Char) (tail : List Char) : Taken Piece :=
  if c == ';' then ⟨.token .comment (String.ofList (c :: tail)), []⟩
  else if c == '"' then
    let taken := readQuoted tail
    ⟨piece (fun s => .token .quotedString (String.ofList s)) taken.result, taken.rest⟩
  else if c == '\x7b' then
    let taken := readBraces tail
    ⟨piece (fun r => .token (.expression r.2) r.1) taken.result, taken.rest⟩
  else if c == '.' && first && (tail.head?.any Char.isAlpha) then
    ⟨.token .command (String.ofList ('.' :: lowerCase (tail.takeWhile isWordChar))),
      tail.dropWhile isWordChar⟩
  else
    match readNumber? (c :: tail) with
    | some taken =>
      ⟨piece (fun r => .token r.1 (String.ofList r.2)) taken.result, taken.rest⟩
    | none =>
      if startsWord c then readWord (c :: tail)
      else if startsPath c then
        ⟨.token .fileName (String.ofList ((c :: tail).takeWhile isPathChar)),
          (c :: tail).dropWhile isPathChar⟩
      else ⟨.fault (.illegalCharacter c) 0, tail⟩

/-! ## Every piece takes a character -/

/-- Behind a mark the rest of the line is left. -/
theorem readUntil_suffix {mark : Char} {cs : List Char} {taken : Taken (List Char)}
    (h : readUntil mark cs = some taken) : taken.rest <:+ cs := by
  unfold readUntil at h
  split at h
  · simp at h
  · rename_i d rest hd
    obtain rfl := by simpa using h
    have hs : cs.dropWhile (· != mark) <:+ cs := List.dropWhile_suffix _
    rw [hd] at hs
    exact (List.suffix_cons d rest).trans hs

/-- Behind a quoted text, closed or not, a rest of the line is left. -/
theorem readQuoted_suffix (cs : List Char) : (readQuoted cs).rest <:+ cs := by
  unfold readQuoted
  split
  · rename_i taken h
    exact readUntil_suffix h
  · exact List.nil_suffix

/-- Behind an expression in braces, closed or not, a rest of the line is left. -/
theorem readBraces_suffix (cs : List Char) : (readBraces cs).rest <:+ cs := by
  unfold readBraces
  split
  · rename_i taken h
    exact readUntil_suffix h
  · exact List.nil_suffix

/-- Behind a sign, or none, the rest of the text is left. -/
theorem readSign_suffix (cs : List Char) : (Power.readSign cs).2 <:+ cs :=
  ⟨_, Power.readSign_append cs⟩

/-- A number takes at least one character. -/
theorem length_readNumber?_lt {cs : List Char}
    {taken : Taken (Except Problem (TokenKind × List Char))}
    (h : readNumber? cs = some taken) : taken.rest.length < cs.length := by
  have hsign := (readSign_suffix cs).length_le
  unfold readNumber? at h
  simp only at h
  split at h
  · simp at h
  · rename_i l rest hread
    have hlt := Literal.length_rest_lt hread
    split at h
    · obtain rfl := by simpa using h
      simp only
      omega
    · rename_i c behind
      simp only [List.length_cons] at hlt
      split at h
      · obtain rfl := by simpa using h
        simp only [List.length_cons]
        omega
      · split at h
        · obtain rfl := by simpa using h
          simp only
          omega
        · obtain rfl := by simpa using h
          simp only
          omega

/-- A value does not lengthen the line. -/
theorem length_readValue_le (cs : List Char) : (readValue cs).rest.length ≤ cs.length := by
  cases cs with
  | nil => simp [readValue]
  | cons c tail =>
    unfold readValue
    simp only
    split
    · have hs := (readBraces_suffix tail).length_le
      split <;> rename_i h <;> rw [h] at hs <;> simp only [List.length_cons] at hs ⊢ <;> omega
    · split
      · have hs := (readQuoted_suffix tail).length_le
        split
        · rename_i h
          rw [h] at hs
          split <;> simp only [List.length_cons] at hs ⊢ <;> omega
        · rename_i h
          rw [h] at hs
          simp only [List.length_cons] at hs ⊢
          omega
      · split
        · exact (List.dropWhile_suffix _).length_le
        · split
          · simp
          · rename_i h
            exact Nat.le_of_lt (length_readNumber?_lt h)
          · rename_i h
            have hlt := length_readNumber?_lt h
            split <;> exact Nat.le_of_lt hlt

/-- A value starts behind its equals sign. -/
theorem length_valueStart?_lt {cs start : List Char} (h : valueStart? cs = some start) :
    start.length < cs.length := by
  unfold valueStart? at h
  have hs : cs.dropWhile isGap <:+ cs := List.dropWhile_suffix _
  split at h
  · simp at h
  · rename_i rest _ heq
    obtain rfl := by simpa using h
    rw [heq] at hs
    have h₁ := hs.length_le
    have h₂ : (rest.dropWhile isGap).length ≤ rest.length :=
      (List.dropWhile_suffix _).length_le
    simp only [List.length_cons] at h₁
    omega
  · simp at h

/-- What starts a word stands in words. -/
theorem isWordChar_of_startsWord {c : Char} (h : startsWord c = true) : isWordChar c = true := by
  simp only [startsWord, isWordChar, isAlphanumeric, Bool.or_eq_true] at h ⊢
  rcases h with h | h
  · exact .inl (.inl h)
  · exact .inr h

/-- What starts a path stands in paths. -/
theorem isPathChar_of_startsPath {c : Char} (h : startsPath c = true) : isPathChar c = true := by
  simp only [startsPath, Bool.or_eq_true, beq_iff_eq] at h
  rcases h with ((rfl | rfl) | rfl) | rfl <;> simp [isPathChar]

/-- What stands in words stands in paths. -/
theorem isPathChar_of_isWordChar {c : Char} (h : isWordChar c = true) : isPathChar c = true := by
  simp only [isWordChar, Bool.or_eq_true] at h
  rcases h with h | h <;> simp [isPathChar, h]

/-- Dropping from the front takes at least the first character, if that is dropped. -/
theorem length_dropWhile_lt {p : Char → Bool} {c : Char} {tail : List Char} (h : p c = true) :
    ((c :: tail).dropWhile p).length < (c :: tail).length := by
  have : (tail.dropWhile p).length ≤ tail.length := (List.dropWhile_suffix _).length_le
  simp only [List.dropWhile_cons, h, if_true, List.length_cons]
  omega

/-- A word takes at least one character. -/
theorem length_readWord_lt {c : Char} {tail : List Char} (h : startsWord c = true) :
    (readWord (c :: tail)).rest.length < (c :: tail).length := by
  have hword : isWordChar c = true := isWordChar_of_startsWord h
  have hafter := @length_dropWhile_lt isWordChar c tail hword
  unfold readWord
  simp only
  split
  · rename_i start hstart
    have hlt := length_valueStart?_lt hstart
    have hle := length_readValue_le start
    split <;> rename_i hv <;> rw [hv] at hle <;> simp only at hle ⊢ <;> omega
  · split
    · exact length_dropWhile_lt (isPathChar_of_isWordChar hword)
    · exact hafter

/-- A piece takes at least one character. -/
theorem length_readPiece_lt (first : Bool) (c : Char) (tail : List Char) :
    (readPiece first c tail).rest.length < (c :: tail).length := by
  unfold readPiece
  split
  · simp
  · split
    · have := (readQuoted_suffix tail).length_le
      simp only [List.length_cons]
      omega
    · split
      · have := (readBraces_suffix tail).length_le
        simp only [List.length_cons]
        omega
      · split
        · have : (tail.dropWhile isWordChar).length ≤ tail.length :=
            (List.dropWhile_suffix _).length_le
          simp only [List.length_cons]
          omega
        · split
          · rename_i taken h
            exact length_readNumber?_lt h
          · split
            · exact length_readWord_lt ‹_›
            · split
              · exact length_dropWhile_lt (isPathChar_of_startsPath ‹_›)
              · simp

/-! ## Lines -/

/-- A piece at its place. -/
def Piece.place (line column : Nat) : Piece → Lexeme
  | .token kind text => .token ⟨kind, text, line, column⟩
  | .fault problem distance => .fault ⟨problem, line, column + distance⟩

/-- The pieces of a line from a column on; `first` says that no piece stands before it. -/
def lexPieces (line column : Nat) (first : Bool) (cs : List Char) : List Lexeme :=
  match cs with
  | [] => []
  | c :: tail =>
    if isBlank c then lexPieces line (column + 1) first tail
    else
      let taken := readPiece first c tail
      Piece.place line column taken.result ::
        lexPieces line (column + ((c :: tail).length - taken.rest.length)) false taken.rest
termination_by cs.length
decreasing_by
  · simp
  · exact length_readPiece_lt first c tail

/-- The title that a line gives: the line without the white space around it, and without the
quotes around that, if there are two. -/
def titleOf (line : List Char) : List Char :=
  match trim line with
  | '"' :: rest => if rest.getLast? = some '"' then rest.dropLast else '"' :: rest
  | bare => bare

/-- The pieces of a line, and whether the title is still to come behind it, if it was to come
before it. -/
def lexLine (line : Nat) (titlePending : Bool) (cs : List Char) : List Lexeme × Bool :=
  let start := cs.dropWhile isBlank
  let column := cs.length - start.length + 1
  match start with
  | [] => ([], titlePending)
  | c :: tail =>
    if c == '*' then
      ([.token ⟨.comment, String.ofList start, line, column⟩], titlePending)
    else if titlePending && !(trim start).isEmpty && c != ';' then
      ([.token ⟨.quotedString, String.ofList (titleOf start), line, column⟩], false)
    else if c == '+' then
      (.token ⟨.plus, "+", line, column⟩ :: lexPieces line (column + 1) true tail, titlePending)
    else (lexPieces line column true start, titlePending)

/-- The pieces of numbered lines, line by line. -/
def lexLines (line : Nat) (titlePending : Bool) : List (List Char) → List (List Lexeme)
  | [] => []
  | cs :: rest =>
    let (pieces, pending) := lexLine line titlePending cs
    pieces :: lexLines (line + 1) pending rest

/-- The pieces of a text, line by line. -/
def lexText (cs : List Char) : List (List Lexeme) := lexLines 1 true (Text.splitLines cs)

/-- The pieces of numbered lines with a newline between any two lines. -/
def joinLines (line : Nat) : List (List Char) → List (List Lexeme) → List Lexeme
  | cs :: next :: rest, pieces :: more =>
    pieces ++ .token ⟨.newline, "\n", line, cs.length + 1⟩ ::
      joinLines (line + 1) (next :: rest) more
  | _, pieces => pieces.flatten

/-- All lexemes of a text in one row, newlines included. -/
def lexemes (text : String) : List Lexeme :=
  joinLines 1 (Text.splitLines text.toList) (lexText text.toList)

end Lexer

end FlatNet
