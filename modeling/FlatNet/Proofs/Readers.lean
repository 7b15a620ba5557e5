import FlatNet.Proofs.Expr.Scanner
import FlatNet.Token.Lexer

/-!
# The ways in which pieces are read

The readers of numbers, values, words and pieces try one form after another.  A relation lists the
forms of each with what they take and leave.  Most forms are known from the character that they
begin with, so that a form hardly ever has to deny those that are tried before it.

A reader takes what its relation says and nothing else: `readNumber?_eq_some_iff`,
`readValue_eq_iff`, `readWord_eq_iff`, `readPiece_eq_iff`.  What is known of the readers is proved
by the cases of the relations.
-/

set_option autoImplicit false

namespace FlatNet

namespace Lexer

open Text (isAlphabetic isWordChar lowerCase)

/-! ## Numbers -/

/-- The end of a number, behind its literal. -/
def endNumber (l : Literal) (literal : List Char) :
    List Char → Taken (Except Problem (TokenKind × List Char))
  | [] => ⟨.ok (literalKind l, literal), []⟩
  | c :: behind =>
    match scaleExponent? c with
    | none => ⟨.ok (literalKind l, literal), c :: behind⟩
    | some e =>
      if l.power.isSome then
        ⟨.error (.malformedNumber (String.ofList (literal ++ [c]))), behind⟩
      else ⟨.ok (.scaled, literal ++ exponentChars e), behind⟩

/-- A number is read as a sign, or none, a literal, and its end. -/
theorem readNumber?_eq (cs : List Char) :
    readNumber? cs = (Literal.read (Power.readSign cs).2).map fun result =>
      endNumber result.1 ((Power.readSign cs).1.toList ++ result.1.chars) result.2 := by
  unfold readNumber?
  cases Power.readSign cs with
  | mk sign body =>
    dsimp only
    cases Literal.read body with
    | none => rfl
    | some result =>
      obtain ⟨l, behind⟩ := result
      dsimp only [Option.map_some]
      unfold endNumber
      cases behind with
      | nil => rfl
      | cons c behind =>
        dsimp only
        cases scaleExponent? c with
        | none => rfl
        | some e =>
          dsimp only
          split <;> rfl

/-- A number is a literal behind a sign or none, without a suffix or with one; a suffix behind a
power of ten is a fault. -/
inductive NumberRead (cs : List Char) : Taken (Except Problem (TokenKind × List Char)) → Prop
  | plain {l : Literal} {rest : List Char}
      (hread : Literal.read (Power.readSign cs).2 = some (l, rest))
      (hrest : ∀ c ∈ rest.head?, scaleExponent? c = none) :
      NumberRead cs ⟨.ok (literalKind l, (Power.readSign cs).1.toList ++ l.chars), rest⟩
  | scaled {l : Literal} {suffix : Char} {e : Int} {rest : List Char}
      (hread : Literal.read (Power.readSign cs).2 = some (l, suffix :: rest))
      (hsuffix : scaleExponent? suffix = some e) (hpower : l.power = none) :
      NumberRead cs
        ⟨.ok (.scaled, (Power.readSign cs).1.toList ++ l.chars ++ exponentChars e), rest⟩
  | malformed {l : Literal} {suffix : Char} {e : Int} {rest : List Char}
      (hread : Literal.read (Power.readSign cs).2 = some (l, suffix :: rest))
      (hsuffix : scaleExponent? suffix = some e) (hpower : l.power.isSome = true) :
      NumberRead cs ⟨.error (.malformedNumber (String.ofList
        ((Power.readSign cs).1.toList ++ l.chars ++ [suffix]))), rest⟩

/-- Whatever the end of a number is, the number has one of the forms. -/
theorem numberRead_endNumber {cs rest : List Char} {l : Literal}
    (hread : Literal.read (Power.readSign cs).2 = some (l, rest)) :
    NumberRead cs (endNumber l ((Power.readSign cs).1.toList ++ l.chars) rest) := by
  unfold endNumber
  cases rest with
  | nil => exact .plain hread (by simp)
  | cons c behind =>
    dsimp only
    cases hsuffix : scaleExponent? c with
    | none => exact .plain hread (by simpa using hsuffix)
    | some e =>
      dsimp only
      split
      · exact .malformed hread hsuffix ‹_›
      · exact .scaled hread hsuffix (by simpa using ‹¬l.power.isSome = true›)

/-- A number is read as one of the forms, and each form is read. -/
theorem readNumber?_eq_some_iff {cs : List Char}
    {taken : Taken (Except Problem (TokenKind × List Char))} :
    readNumber? cs = some taken ↔ NumberRead cs taken := by
  rw [readNumber?_eq]
  constructor
  · intro h
    obtain ⟨⟨l, rest⟩, hread, rfl⟩ := Option.map_eq_some_iff.mp h
    exact numberRead_endNumber hread
  · intro h
    cases h with
    | plain hread hrest =>
      rename_i rest
      rw [hread, Option.map_some]
      cases rest with
      | nil => rfl
      | cons c behind => simp [endNumber, hrest c rfl]
    | scaled hread hsuffix hpower =>
      rw [hread, Option.map_some]
      simp [endNumber, hsuffix, hpower]
    | malformed hread hsuffix hpower =>
      rw [hread, Option.map_some]
      simp [endNumber, hsuffix, hpower]

/-- A number begins with a digit, a point or a sign. -/
theorem readNumber?_eq_none {c : Char} {tail : List Char} (hdigit : c.isDigit = false)
    (hpoint : c ≠ '.') (hplus : c ≠ '+') (hminus : c ≠ '-') : readNumber? (c :: tail) = none := by
  have hread : Literal.read (c :: tail) = none := by
    refine Option.eq_none_iff_forall_ne_some.mpr fun result hresult => ?_
    obtain ⟨l, rest⟩ := result
    obtain ⟨d, tail', hcons, hbegins⟩ := Literal.exists_eq_cons_of_read hresult
    obtain ⟨rfl, rfl⟩ := List.cons.inj hcons
    rw [hdigit, Bool.false_or] at hbegins
    exact hpoint (eq_of_beq hbegins)
  have hsign : Power.readSign (c :: tail) = (none, c :: tail) := if_neg (not_or.mpr ⟨hplus, hminus⟩)
  rw [readNumber?_eq, hsign, hread]
  rfl

/-- A point and a letter begin no number. -/
theorem readNumber?_of_isAlpha {c : Char} {tail : List Char} (h : c.isAlpha = true) :
    readNumber? ('.' :: c :: tail) = none := by
  have hdigit : c.isDigit = false := by
    by_contra hdigit
    rw [Bool.not_eq_false] at hdigit
    have hcode := Expr.Token.code_of_isDigit hdigit
    have hcode' := Expr.Token.code_of_isAlpha h
    omega
  have hsign : Power.readSign ('.' :: c :: tail) = (none, '.' :: c :: tail) := rfl
  have hread : Literal.read ('.' :: c :: tail) = none := by
    simp [Literal.read, Literal.readFraction, hdigit]
  rw [readNumber?_eq, hsign, hread]
  rfl

/-- What begins a word begins no number, no comment and no text between marks. -/
theorem startsWord_facts {c : Char} (h : startsWord c = true) :
    c.isDigit = false ∧ c ≠ '.' ∧ c ≠ '+' ∧ c ≠ '-' ∧ c ≠ ';' ∧ c ≠ '"' ∧ c ≠ '\x7b' ∧
      isBlank c = false := by
  have hne : ∀ d, startsWord d = false → c ≠ d := by
    rintro d hd rfl
    exact absurd (h.symm.trans hd) (by simp)
  refine ⟨?_, hne _ rfl, hne _ rfl, hne _ rfl, hne _ rfl, hne _ rfl, hne _ rfl, ?_⟩
  · by_contra hdigit
    rw [Bool.not_eq_false] at hdigit
    have hcode := Expr.Token.code_of_isDigit hdigit
    rw [startsWord, Text.isAlphabetic_of_isAscii (Expr.Token.isAscii_of_isDigit hdigit),
      Bool.or_eq_true, beq_iff_eq] at h
    rcases h with hletter | rfl
    · have hcode' := Expr.Token.code_of_isAlpha hletter
      omega
    · exact absurd hdigit (by decide)
  · simp [isBlank, hne ' ' rfl, hne '\t' rfl, hne '\r' rfl]

/-- What begins a number begins nothing else, and no command if it is a point. -/
theorem number_facts {c : Char} {tail : List Char} (h : readNumber? (c :: tail) ≠ none) :
    c ≠ ';' ∧ c ≠ '"' ∧ c ≠ '\x7b' ∧ startsWord c = false ∧ isBlank c = false ∧
      ∀ first : Bool, (c == '.' && first && tail.head?.any Char.isAlpha) = false := by
  have hne : ∀ d : Char, d.isDigit = false ∧ d ≠ '.' ∧ d ≠ '+' ∧ d ≠ '-' → c ≠ d := by
    rintro d ⟨hdigit, hpoint, hplus, hminus⟩ rfl
    exact h (readNumber?_eq_none hdigit hpoint hplus hminus)
  refine ⟨hne _ (by decide), hne _ (by decide), hne _ (by decide), ?_, ?_, fun first => ?_⟩
  · refine Bool.eq_false_iff.mpr fun hword => ?_
    obtain ⟨hdigit, hpoint, hplus, hminus, -⟩ := startsWord_facts hword
    exact h (readNumber?_eq_none hdigit hpoint hplus hminus)
  · simp [isBlank, hne ' ' (by decide), hne '\t' (by decide), hne '\r' (by decide)]
  · refine Bool.eq_false_iff.mpr fun hcommand => ?_
    rw [Bool.and_eq_true, Bool.and_eq_true, beq_iff_eq] at hcommand
    obtain ⟨⟨rfl, -⟩, hletter⟩ := hcommand
    cases tail with
    | nil => exact absurd hletter (by simp)
    | cons d tail => exact h (readNumber?_of_isAlpha hletter)

/-! ## Values -/

/-- Behind a quoted text the rest of the line is left. -/
theorem suffix_of_readQuoted {cs rest : List Char} {result : Except Problem (List Char)}
    (h : readQuoted cs = ⟨result, rest⟩) : rest <:+ cs := by
  have hsuffix := readQuoted_suffix cs
  rwa [h] at hsuffix

/-- Behind an expression in braces the rest of the line is left. -/
theorem suffix_of_readBraces {cs rest : List Char} {result : Except Problem (String × Expr)}
    (h : readBraces cs = ⟨result, rest⟩) : rest <:+ cs := by
  have hsuffix := readBraces_suffix cs
  rwa [h] at hsuffix

/-- A value is an expression in braces or quotes, a name or a number. -/
inductive ValueRead : List Char → Taken ValueReading → Prop
  | empty : ValueRead [] ⟨.missing, []⟩
  | braces {tail rest : List Char} {text : String} {e : Expr}
      (hbraces : readBraces tail = ⟨.ok (text, e), rest⟩) :
      ValueRead ('\x7b' :: tail) ⟨.value e, rest⟩
  | faultyBraces {tail rest : List Char} {problem : Problem}
      (hbraces : readBraces tail = ⟨.error problem, rest⟩) :
      ValueRead ('\x7b' :: tail) ⟨.faulty problem, rest⟩
  | quoted {tail raw rest : List Char} {text : String} {e : Expr}
      (hquoted : readQuoted tail = ⟨.ok raw, rest⟩)
      (hexpression : readExpression raw raw = .ok (text, e)) :
      ValueRead ('"' :: tail) ⟨.value e, rest⟩
  | faultyExpression {tail raw rest : List Char} {problem : Problem}
      (hquoted : readQuoted tail = ⟨.ok raw, rest⟩)
      (hexpression : readExpression raw raw = .error problem) :
      ValueRead ('"' :: tail) ⟨.faulty problem, rest⟩
  | faultyQuoted {tail rest : List Char} {problem : Problem}
      (hquoted : readQuoted tail = ⟨.error problem, rest⟩) :
      ValueRead ('"' :: tail) ⟨.faulty problem, rest⟩
  | name {c : Char} {tail : List Char} (hword : startsWord c = true) :
      ValueRead (c :: tail) ⟨.value (.sym (String.ofList ((c :: tail).takeWhile isWordChar))),
        (c :: tail).dropWhile isWordChar⟩
  | number {c : Char} {tail literal rest : List Char} {kind : TokenKind} {v : Binary64}
      (hnumber : readNumber? (c :: tail) = some ⟨.ok (kind, literal), rest⟩)
      (hvalue : Binary64.ofLiteral? literal = some v) :
      ValueRead (c :: tail) ⟨.value (.num v), rest⟩
  | faultyNumber {c : Char} {tail rest : List Char} {problem : Problem}
      (hnumber : readNumber? (c :: tail) = some ⟨.error problem, rest⟩) :
      ValueRead (c :: tail) ⟨.faulty problem, rest⟩
  | valueless {c : Char} {tail literal rest : List Char} {kind : TokenKind}
      (hnumber : readNumber? (c :: tail) = some ⟨.ok (kind, literal), rest⟩)
      (hvalue : Binary64.ofLiteral? literal = none) :
      ValueRead (c :: tail) ⟨.faulty (.malformedNumber (String.ofList literal)), rest⟩
  | none {c : Char} {tail : List Char} (hbrace : c ≠ '\x7b') (hquote : c ≠ '"')
      (hword : startsWord c = false) (hnumber : readNumber? (c :: tail) = none) :
      ValueRead (c :: tail) ⟨.missing, c :: tail⟩

/-- What is read as a value has one of the forms. -/
theorem valueRead (cs : List Char) : ValueRead cs (readValue cs) := by
  cases cs with
  | nil => exact .empty
  | cons c tail =>
    unfold readValue
    dsimp only
    split
    · rename_i hbrace
      obtain rfl := eq_of_beq hbrace
      split
      · exact .braces ‹_›
      · exact .faultyBraces ‹_›
    · rename_i hbrace
      split
      · rename_i hquote
        obtain rfl := eq_of_beq hquote
        split
        · split
          · exact .quoted ‹_› ‹_›
          · exact .faultyExpression ‹_› ‹_›
        · exact .faultyQuoted ‹_›
      · rename_i hquote
        split
        · exact .name ‹_›
        · rename_i hword
          split
          · exact .none (by simpa using hbrace) (by simpa using hquote) (by simpa using hword) ‹_›
          · exact .faultyNumber ‹_›
          · split
            · exact .number ‹_› ‹_›
            · exact .valueless ‹_› ‹_›

/-- Each form of a value is read. -/
theorem ValueRead.eq {cs : List Char} {taken : Taken ValueReading} (h : ValueRead cs taken) :
    readValue cs = taken := by
  cases h with
  | empty => rfl
  | braces hbraces => simp [readValue, hbraces]
  | faultyBraces hbraces => simp [readValue, hbraces]
  | quoted hquoted hexpression => simp [readValue, hquoted, hexpression]
  | faultyExpression hquoted hexpression => simp [readValue, hquoted, hexpression]
  | faultyQuoted hquoted => simp [readValue, hquoted]
  | name hword =>
    obtain ⟨-, -, -, -, -, hquote, hbrace, -⟩ := startsWord_facts hword
    simp [readValue, hbrace, hquote, hword]
  | number hnumber hvalue =>
    obtain ⟨-, hquote, hbrace, hword, -⟩ := number_facts (by rw [hnumber]; simp)
    simp [readValue, hbrace, hquote, hword, hnumber, hvalue]
  | faultyNumber hnumber =>
    obtain ⟨-, hquote, hbrace, hword, -⟩ := number_facts (by rw [hnumber]; simp)
    simp [readValue, hbrace, hquote, hword, hnumber]
  | valueless hnumber hvalue =>
    obtain ⟨-, hquote, hbrace, hword, -⟩ := number_facts (by rw [hnumber]; simp)
    simp [readValue, hbrace, hquote, hword, hnumber, hvalue]
  | none hbrace hquote hword hnumber => simp [readValue, hbrace, hquote, hword, hnumber]

/-- A value is read as one of the forms, and each form is read. -/
theorem readValue_eq_iff {cs : List Char} {taken : Taken ValueReading} :
    readValue cs = taken ↔ ValueRead cs taken :=
  ⟨fun h => h ▸ valueRead cs, ValueRead.eq⟩

/-! ## Words -/

/-- What a word begins is the definition of a parameter, a path or an identifier. -/
inductive WordRead (cs : List Char) : Taken Piece → Prop
  | definition {start rest : List Char} {e : Expr}
      (hstart : valueStart? (cs.dropWhile isWordChar) = some start)
      (hvalue : readValue start = ⟨.value e, rest⟩) :
      WordRead cs ⟨.token (.paramDef (String.ofList (cs.takeWhile isWordChar)) e)
        (String.ofList (cs.takeWhile isWordChar) ++ "=" ++ e.text), rest⟩
  | faulty {start rest : List Char} {problem : Problem}
      (hstart : valueStart? (cs.dropWhile isWordChar) = some start)
      (hvalue : readValue start = ⟨.faulty problem, rest⟩) :
      WordRead cs ⟨.fault problem (cs.length - start.length), rest⟩
  | missing {start rest : List Char}
      (hstart : valueStart? (cs.dropWhile isWordChar) = some start)
      (hvalue : readValue start = ⟨.missing, rest⟩) :
      WordRead cs ⟨.fault (.missingParamValue (String.ofList (cs.takeWhile isWordChar))) 0, rest⟩
  | path (hstart : valueStart? (cs.dropWhile isWordChar) = none)
      (hpath : continuesPath (cs.dropWhile isWordChar) = true) :
      WordRead cs
        ⟨.token .fileName (String.ofList (cs.takeWhile isPathChar)), cs.dropWhile isPathChar⟩
  | identifier (hstart : valueStart? (cs.dropWhile isWordChar) = none)
      (hpath : continuesPath (cs.dropWhile isWordChar) = false) :
      WordRead cs
        ⟨.token .identifier (String.ofList (cs.takeWhile isWordChar)), cs.dropWhile isWordChar⟩

/-- What is read from a word has one of the forms. -/
theorem wordRead (cs : List Char) : WordRead cs (readWord cs) := by
  unfold readWord
  dsimp only
  split
  · split
    · exact .definition ‹_› ‹_›
    · exact .faulty ‹_› ‹_›
    · exact .missing ‹_› ‹_›
  · split
    · exact .path ‹_› ‹_›
    · exact .identifier ‹_› (by simpa using ‹¬continuesPath _ = true›)

/-- Each form of a word is read. -/
theorem WordRead.eq {cs : List Char} {taken : Taken Piece} (h : WordRead cs taken) :
    readWord cs = taken := by
  cases h with
  | definition hstart hvalue => simp [readWord, hstart, hvalue]
  | faulty hstart hvalue => simp [readWord, hstart, hvalue]
  | missing hstart hvalue => simp [readWord, hstart, hvalue]
  | path hstart hpath => simp [readWord, hstart, hpath]
  | identifier hstart hpath => simp [readWord, hstart, hpath]

/-- A word is read as one of the forms, and each form is read. -/
theorem readWord_eq_iff {cs : List Char} {taken : Taken Piece} :
    readWord cs = taken ↔ WordRead cs taken :=
  ⟨fun h => h ▸ wordRead cs, WordRead.eq⟩

/-! ## Pieces -/

/-- A piece is known from its first character, unless that is a point. -/
inductive PieceRead (first : Bool) : Char → List Char → Taken Piece → Prop
  | comment {tail : List Char} :
      PieceRead first ';' tail ⟨.token .comment (String.ofList (';' :: tail)), []⟩
  | quoted {tail text rest : List Char} (hquoted : readQuoted tail = ⟨.ok text, rest⟩) :
      PieceRead first '"' tail ⟨.token .quotedString (String.ofList text), rest⟩
  | faultyQuoted {tail rest : List Char} {problem : Problem}
      (hquoted : readQuoted tail = ⟨.error problem, rest⟩) :
      PieceRead first '"' tail ⟨.fault problem 0, rest⟩
  | braces {tail rest : List Char} {text : String} {e : Expr}
      (hbraces : readBraces tail = ⟨.ok (text, e), rest⟩) :
      PieceRead first '\x7b' tail ⟨.token (.expression e) text, rest⟩
  | faultyBraces {tail rest : List Char} {problem : Problem}
      (hbraces : readBraces tail = ⟨.error problem, rest⟩) :
      PieceRead first '\x7b' tail ⟨.fault problem 0, rest⟩
  | command {tail : List Char} (hfirst : first = true)
      (hletter : tail.head?.any Char.isAlpha = true) :
      PieceRead first '.' tail
        ⟨.token .command (String.ofList ('.' :: lowerCase (tail.takeWhile isWordChar))),
          tail.dropWhile isWordChar⟩
  | number {c : Char} {tail literal rest : List Char} {kind : TokenKind}
      (hnumber : readNumber? (c :: tail) = some ⟨.ok (kind, literal), rest⟩) :
      PieceRead first c tail ⟨.token kind (String.ofList literal), rest⟩
  | faultyNumber {c : Char} {tail rest : List Char} {problem : Problem}
      (hnumber : readNumber? (c :: tail) = some ⟨.error problem, rest⟩) :
      PieceRead first c tail ⟨.fault problem 0, rest⟩
  | word {c : Char} {tail : List Char} {taken : Taken Piece} (hstarts : startsWord c = true)
      (hword : readWord (c :: tail) = taken) : PieceRead first c tail taken
  | path {c : Char} {tail : List Char} (hstarts : startsPath c = true)
      (hcommand : (c == '.' && first && tail.head?.any Char.isAlpha) = false)
      (hnumber : readNumber? (c :: tail) = none) :
      PieceRead first c tail ⟨.token .fileName (String.ofList ((c :: tail).takeWhile isPathChar)),
        (c :: tail).dropWhile isPathChar⟩
  | illegal {c : Char} {tail : List Char} (hsemicolon : c ≠ ';') (hquote : c ≠ '"')
      (hbrace : c ≠ '\x7b') (hnumber : readNumber? (c :: tail) = none)
      (hword : startsWord c = false) (hpath : startsPath c = false) :
      PieceRead first c tail ⟨.fault (.illegalCharacter c) 0, tail⟩

variable {first : Bool} {c : Char} {tail : List Char}

/-- What is read as a piece has one of the forms. -/
theorem pieceRead (first : Bool) (c : Char) (tail : List Char) :
    PieceRead first c tail (readPiece first c tail) := by
  unfold readPiece
  split
  · rename_i hsemicolon
    obtain rfl := eq_of_beq hsemicolon
    exact .comment
  · rename_i hsemicolon
    split
    · rename_i hquote
      obtain rfl := eq_of_beq hquote
      cases hquoted : readQuoted tail with
      | mk result rest =>
        cases result with
        | ok text => exact .quoted hquoted
        | error problem => exact .faultyQuoted hquoted
    · rename_i hquote
      split
      · rename_i hbrace
        obtain rfl := eq_of_beq hbrace
        cases hbraces : readBraces tail with
        | mk result rest =>
          cases result with
          | ok r => exact .braces hbraces
          | error problem => exact .faultyBraces hbraces
      · rename_i hbrace
        split
        · rename_i hcommand
          simp only [Bool.and_eq_true, beq_iff_eq] at hcommand
          obtain ⟨⟨rfl, hfirst⟩, hletter⟩ := hcommand
          exact .command hfirst hletter
        · rename_i hcommand
          split
          · rename_i taken hnumber
            obtain ⟨result, rest⟩ := taken
            cases result with
            | ok r => exact .number hnumber
            | error problem => exact .faultyNumber hnumber
          · split
            · exact .word ‹_› rfl
            · rename_i hword
              split
              · exact .path ‹_› (by simpa using hcommand) ‹_›
              · rename_i hpath
                exact .illegal (by simpa using hsemicolon) (by simpa using hquote)
                  (by simpa using hbrace) ‹_› (by simpa using hword) (by simpa using hpath)

/-- Each form of a piece is read. -/
theorem PieceRead.eq {taken : Taken Piece} (h : PieceRead first c tail taken) :
    readPiece first c tail = taken := by
  cases h with
  | comment => rfl
  | quoted hquoted => simp [readPiece, piece, hquoted]
  | faultyQuoted hquoted => simp [readPiece, piece, hquoted]
  | braces hbraces => simp [readPiece, piece, hbraces]
  | faultyBraces hbraces => simp [readPiece, piece, hbraces]
  | command hfirst hletter => simp [readPiece, hfirst, hletter]
  | number hnumber =>
    obtain ⟨hsemicolon, hquote, hbrace, -, -, hcommand⟩ := number_facts (by rw [hnumber]; simp)
    simp [readPiece, piece, hsemicolon, hquote, hbrace, hcommand, hnumber]
  | faultyNumber hnumber =>
    obtain ⟨hsemicolon, hquote, hbrace, -, -, hcommand⟩ := number_facts (by rw [hnumber]; simp)
    simp [readPiece, piece, hsemicolon, hquote, hbrace, hcommand, hnumber]
  | word hstarts hword =>
    obtain ⟨hdigit, hpoint, hplus, hminus, hsemicolon, hquote, hbrace, -⟩ :=
      startsWord_facts hstarts
    have hnumber : readNumber? (c :: tail) = none :=
      readNumber?_eq_none hdigit hpoint hplus hminus
    simp [readPiece, hsemicolon, hquote, hbrace, hpoint, hnumber, hstarts, hword]
  | path hstarts hcommand hnumber =>
    have hne : ∀ d, startsPath d = false → c ≠ d := by
      rintro d hd rfl
      exact absurd (hstarts.symm.trans hd) (by simp)
    have hword : startsWord c = false := by
      simp only [startsPath, Bool.or_eq_true, beq_iff_eq] at hstarts
      rcases hstarts with ((rfl | rfl) | rfl) | rfl <;> decide
    simp [readPiece, hne ';' rfl, hne '"' rfl, hne '\x7b' rfl, hcommand, hnumber, hword, hstarts]
  | illegal hsemicolon hquote hbrace hnumber hword hpath =>
    have hpoint : c ≠ '.' := by
      rintro rfl
      exact absurd hpath (by decide)
    simp [readPiece, hsemicolon, hquote, hbrace, hpoint, hnumber, hword, hpath]

/-- A piece is read as one of the forms, and each form is read. -/
theorem readPiece_eq_iff {taken : Taken Piece} :
    readPiece first c tail = taken ↔ PieceRead first c tail taken :=
  ⟨fun h => h ▸ pieceRead first c tail, PieceRead.eq⟩

end Lexer

end FlatNet
