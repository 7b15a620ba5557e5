import FlatNet.Proofs.Cutting
import FlatNet.Proofs.Number.Literal

/-!
# Line endings

A carriage return before a newline belongs to the line ending.  Every reader of pieces leaves it
behind, or goes to the end of the line with an open quote or brace whose text is dropped; a comment
takes it into its text, and comments are of no use.  So a text with carriage returns before its
newlines has the same logical lines and the same faults as the text without them.
-/

set_option autoImplicit false

namespace FlatNet

/-! ## Literals -/

/-- A carriage return continues no literal. -/
theorem stops_return : Literal.Stops ['\r'] := by
  intro c hc
  obtain rfl := (Option.some.inj hc : '\r' = c)
  decide

/-- A sign is read without the carriage return at the end. -/
theorem readSign_return (cs : List Char) :
    Power.readSign (cs ++ ['\r']) = ((Power.readSign cs).1, (Power.readSign cs).2 ++ ['\r']) := by
  cases cs with
  | nil => rfl
  | cons c rest =>
    unfold Power.readSign
    rw [List.cons_append]
    dsimp only
    split <;> rfl

/-- A power is read without the carriage return at the end. -/
theorem readPower_return (cs : List Char) :
    Power.read (cs ++ ['\r']) = ((Power.read cs).1, (Power.read cs).2 ++ ['\r']) := by
  cases cs with
  | nil => rfl
  | cons c rest =>
    have hdigits := takeWhile_append_of_stops stops_return.isDigit (Power.readSign rest).2
    have hbehind := dropWhile_append_of_stops stops_return.isDigit (Power.readSign rest).2
    unfold Power.read
    rw [List.cons_append]
    dsimp only
    rw [readSign_return]
    dsimp only
    rw [hdigits, hbehind]
    split
    · split <;> rfl
    · rfl

/-- A literal is read without the carriage return at the end. -/
theorem readLiteral_return (cs : List Char) :
    Literal.read (cs ++ ['\r']) =
      (Literal.read cs).map fun result => (result.1, result.2 ++ ['\r']) := by
  have hwhole := takeWhile_append_of_stops stops_return.isDigit cs
  have hbehind := dropWhile_append_of_stops stops_return.isDigit cs
  unfold Literal.read
  dsimp only
  rw [hwhole, hbehind, Literal.readFraction_append_of_stops stops_return, readPower_return]
  dsimp only
  split <;> rfl

/-! ## Readers -/

/-- What is taken from a line with a carriage return at its end, and what is taken from the line
without it: the result is the same, and the carriage return is left unless nothing is. -/
inductive LeavesReturn {α : Type} : Taken α → Taken α → Prop where
  | left (result : α) (rest : List Char) : LeavesReturn ⟨result, rest ++ ['\r']⟩ ⟨result, rest⟩
  | ended (result : α) : LeavesReturn ⟨result, []⟩ ⟨result, []⟩

/-- What leaves a carriage return leaves it whatever is made of the result. -/
theorem LeavesReturn.exists_rest {α : Type} {returned plain : Taken α}
    (h : LeavesReturn returned plain) {result : α} {rest : List Char}
    (hplain : plain = ⟨result, rest⟩) :
    ∃ rest', returned = ⟨result, rest'⟩ ∧
      ∀ {β : Type} (made : β), LeavesReturn ⟨made, rest'⟩ ⟨made, rest⟩ := by
  subst hplain
  cases h with
  | left => exact ⟨_, rfl, fun made => .left made _⟩
  | ended => exact ⟨_, rfl, fun made => .ended made⟩

namespace Lexer

open Text (isWordChar)

/-- Reading up to a mark, and past it, leaves the carriage return at the end. -/
theorem readUntil_return {mark : Char} (hmark : mark ≠ '\r') (cs : List Char) :
    readUntil mark (cs ++ ['\r']) =
      (readUntil mark cs).map fun taken => ⟨taken.result, taken.rest ++ ['\r']⟩ := by
  have hreturn : ('\r' != mark) = true := bne_iff_ne.mpr hmark.symm
  unfold readUntil
  rw [List.dropWhile_append]
  cases hbehind : cs.dropWhile (· != mark) with
  | nil =>
    rw [List.isEmpty_nil, if_pos rfl, List.dropWhile_cons, if_pos hreturn]
    rfl
  | cons d rest =>
    have hstops : (cs ++ ['\r']).takeWhile (· != mark) = cs.takeWhile (· != mark) := by
      have hsum := congrArg List.length
        (List.takeWhile_append_dropWhile (p := (· != mark)) (l := cs))
      rw [hbehind, List.length_append, List.length_cons] at hsum
      rw [List.takeWhile_append, if_neg (by omega)]
    rw [hstops]
    rfl

/-- A quoted text ends at its quote; if that is missing, the text and the carriage return are
dropped. -/
theorem readQuoted_return (cs : List Char) :
    LeavesReturn (readQuoted (cs ++ ['\r'])) (readQuoted cs) := by
  unfold readQuoted
  rw [readUntil_return (by decide)]
  cases readUntil '"' cs with
  | none => exact .ended _
  | some taken => exact .left _ _

/-- An expression in braces ends at its brace; if that is missing, the text and the carriage return
are dropped. -/
theorem readBraces_return (cs : List Char) :
    LeavesReturn (readBraces (cs ++ ['\r'])) (readBraces cs) := by
  unfold readBraces
  rw [readUntil_return (by decide)]
  cases readUntil '\x7d' cs with
  | none => exact .ended _
  | some taken => exact .left _ _

/-- A number with its scale is read without the carriage return at the end. -/
theorem readNumber?_return (cs : List Char) :
    readNumber? (cs ++ ['\r']) =
      (readNumber? cs).map fun taken => ⟨taken.result, taken.rest ++ ['\r']⟩ := by
  have hend : ∀ (l : Literal) (literal rest : List Char),
      endNumber l literal (rest ++ ['\r']) =
        ⟨(endNumber l literal rest).result, (endNumber l literal rest).rest ++ ['\r']⟩ := by
    intro l literal rest
    cases rest with
    | nil => rfl
    | cons c behind =>
      unfold endNumber
      rw [List.cons_append]
      dsimp only
      split
      · rfl
      · split <;> rfl
  rw [readNumber?_eq, readNumber?_eq, readSign_return, readLiteral_return]
  dsimp only
  cases Literal.read (Power.readSign cs).2 with
  | none => rfl
  | some result => exact congrArg some (hend _ _ _)

/-- A number that is read is read with a carriage return at the end as well. -/
theorem readNumber?_return_of_some {c : Char} {tail rest : List Char}
    {result : Except Problem (TokenKind × List Char)}
    (h : readNumber? (c :: tail) = some ⟨result, rest⟩) :
    readNumber? (c :: (tail ++ ['\r'])) = some ⟨result, rest ++ ['\r']⟩ := by
  rw [← List.cons_append, readNumber?_return, h]
  rfl

/-- Where no number is read, none is with a carriage return at the end. -/
theorem readNumber?_return_of_none {c : Char} {tail : List Char}
    (h : readNumber? (c :: tail) = none) : readNumber? (c :: (tail ++ ['\r'])) = none := by
  rw [← List.cons_append, readNumber?_return, h]
  rfl

/-- A carriage return is no character of a word or of a path. -/
theorem return_stops_words :
    (∀ c ∈ ['\r'].head?, isWordChar c = false) ∧ (∀ c ∈ ['\r'].head?, isPathChar c = false) ∧
      ∀ c ∈ ['\r'].head?, isGap c = false := by
  have hreturn : ∀ p : Char → Bool, p '\r' = false → ∀ c ∈ ['\r'].head?, p c = false := by
    intro p hp c hc
    obtain rfl := (Option.some.inj hc : '\r' = c)
    exact hp
  exact ⟨hreturn _ (by decide), hreturn _ (by decide), hreturn _ (by decide)⟩

/-- A value behind an equals sign leaves the carriage return, unless nothing is left. -/
theorem readValue_return (cs : List Char) :
    LeavesReturn (readValue (cs ++ ['\r'])) (readValue cs) := by
  have hread := valueRead cs
  generalize readValue cs = plain at hread ⊢
  cases hread with
  | empty => exact .left _ _
  | braces hbraces =>
    obtain ⟨rest', hreturned, hleaves⟩ := (readBraces_return _).exists_rest hbraces
    rw [List.cons_append, ValueRead.eq (.braces hreturned)]
    exact hleaves _
  | faultyBraces hbraces =>
    obtain ⟨rest', hreturned, hleaves⟩ := (readBraces_return _).exists_rest hbraces
    rw [List.cons_append, ValueRead.eq (.faultyBraces hreturned)]
    exact hleaves _
  | quoted hquoted hexpression =>
    obtain ⟨rest', hreturned, hleaves⟩ := (readQuoted_return _).exists_rest hquoted
    rw [List.cons_append, ValueRead.eq (.quoted hreturned hexpression)]
    exact hleaves _
  | faultyExpression hquoted hexpression =>
    obtain ⟨rest', hreturned, hleaves⟩ := (readQuoted_return _).exists_rest hquoted
    rw [List.cons_append, ValueRead.eq (.faultyExpression hreturned hexpression)]
    exact hleaves _
  | faultyQuoted hquoted =>
    obtain ⟨rest', hreturned, hleaves⟩ := (readQuoted_return _).exists_rest hquoted
    rw [List.cons_append, ValueRead.eq (.faultyQuoted hreturned)]
    exact hleaves _
  | name hword =>
    rename_i c tail
    have htake := takeWhile_append_of_stops return_stops_words.1 (c :: tail)
    have hdrop := dropWhile_append_of_stops return_stops_words.1 (c :: tail)
    rw [List.cons_append] at htake hdrop
    rw [List.cons_append, ValueRead.eq (.name hword), htake, hdrop]
    exact .left _ _
  | number hnumber hvalue =>
    rw [List.cons_append, ValueRead.eq (.number (readNumber?_return_of_some hnumber) hvalue)]
    exact .left _ _
  | faultyNumber hnumber =>
    rw [List.cons_append, ValueRead.eq (.faultyNumber (readNumber?_return_of_some hnumber))]
    exact .left _ _
  | valueless hnumber hvalue =>
    rw [List.cons_append, ValueRead.eq (.valueless (readNumber?_return_of_some hnumber) hvalue)]
    exact .left _ _
  | none hbrace hquote hword hnumber =>
    rename_i c tail
    rw [List.cons_append,
      ValueRead.eq (.none hbrace hquote hword (readNumber?_return_of_none hnumber))]
    exact .left _ (c :: tail)

/-- A value starts at the same place with a carriage return at the end. -/
theorem valueStart?_return (cs : List Char) :
    valueStart? (cs ++ ['\r']) = (valueStart? cs).map (· ++ ['\r']) := by
  have hgap := return_stops_words.2.2
  unfold valueStart?
  rw [dropWhile_append_of_stops hgap]
  cases cs.dropWhile isGap with
  | nil => rfl
  | cons c behind =>
    by_cases hc : c = '='
    · cases behind with
      | nil =>
        subst hc
        rfl
      | cons d rest =>
        by_cases hd : d = '='
        · subst hc hd
          rfl
        · subst hc
          have hrest := dropWhile_append_of_stops hgap (d :: rest)
          rw [List.cons_append] at hrest
          simp [hd, hrest]
    · simp [hc]

/-- A carriage return does not make a path of a word. -/
theorem continuesPath_return (cs : List Char) :
    continuesPath (cs ++ ['\r']) = continuesPath cs := by
  cases cs with
  | nil => rfl
  | cons c tail =>
    cases tail with
    | nil => exact Bool.and_false _
    | cons d rest => rfl

/-- A word, with its value if there is one, leaves the carriage return, unless nothing is left. -/
theorem readWord_return (cs : List Char) :
    LeavesReturn (readWord (cs ++ ['\r'])) (readWord cs) := by
  obtain ⟨hword, hpath, -⟩ := return_stops_words
  have htake := takeWhile_append_of_stops hword cs
  have hafter : valueStart? ((cs ++ ['\r']).dropWhile isWordChar) =
      (valueStart? (cs.dropWhile isWordChar)).map (· ++ ['\r']) := by
    rw [dropWhile_append_of_stops hword, valueStart?_return]
  have hcontinues : continuesPath ((cs ++ ['\r']).dropWhile isWordChar) =
      continuesPath (cs.dropWhile isWordChar) := by
    rw [dropWhile_append_of_stops hword, continuesPath_return]
  have hread := wordRead cs
  generalize readWord cs = plain at hread ⊢
  cases hread with
  | definition hstart hvalue =>
    rw [hstart] at hafter
    obtain ⟨rest', hreturned, hleaves⟩ := (readValue_return _).exists_rest hvalue
    rw [WordRead.eq (.definition hafter hreturned), htake]
    exact hleaves _
  | faulty hstart hvalue =>
    rw [hstart] at hafter
    obtain ⟨rest', hreturned, hleaves⟩ := (readValue_return _).exists_rest hvalue
    rw [WordRead.eq (.faulty hafter hreturned), List.length_append, List.length_append,
      Nat.add_sub_add_right]
    exact hleaves _
  | missing hstart hvalue =>
    rw [hstart] at hafter
    obtain ⟨rest', hreturned, hleaves⟩ := (readValue_return _).exists_rest hvalue
    rw [WordRead.eq (.missing hafter hreturned), htake]
    exact hleaves _
  | path hstart hpath' =>
    rw [hstart] at hafter
    rw [WordRead.eq (.path hafter (hcontinues.trans hpath')), takeWhile_append_of_stops hpath,
      dropWhile_append_of_stops hpath]
    exact .left _ _
  | identifier hstart hpath' =>
    rw [hstart] at hafter
    rw [WordRead.eq (.identifier hafter (hcontinues.trans hpath')), htake,
      dropWhile_append_of_stops hword]
    exact .left _ _

/-- Every piece but a comment leaves the carriage return behind. -/
theorem readPiece_return (first : Bool) {c : Char} (hc : c ≠ ';') (tail : List Char) :
    LeavesReturn (readPiece first c (tail ++ ['\r'])) (readPiece first c tail) := by
  obtain ⟨hword, hpath, -⟩ := return_stops_words
  have hhead : (tail ++ ['\r']).head?.any Char.isAlpha = tail.head?.any Char.isAlpha := by
    cases tail <;> rfl
  have hread := pieceRead first c tail
  generalize readPiece first c tail = plain at hread ⊢
  cases hread with
  | comment => exact absurd rfl hc
  | quoted hquoted =>
    obtain ⟨rest', hreturned, hleaves⟩ := (readQuoted_return _).exists_rest hquoted
    rw [PieceRead.eq (.quoted hreturned)]
    exact hleaves _
  | faultyQuoted hquoted =>
    obtain ⟨rest', hreturned, hleaves⟩ := (readQuoted_return _).exists_rest hquoted
    rw [PieceRead.eq (.faultyQuoted hreturned)]
    exact hleaves _
  | braces hbraces =>
    obtain ⟨rest', hreturned, hleaves⟩ := (readBraces_return _).exists_rest hbraces
    rw [PieceRead.eq (.braces hreturned)]
    exact hleaves _
  | faultyBraces hbraces =>
    obtain ⟨rest', hreturned, hleaves⟩ := (readBraces_return _).exists_rest hbraces
    rw [PieceRead.eq (.faultyBraces hreturned)]
    exact hleaves _
  | command hfirst hletter =>
    rw [PieceRead.eq (.command hfirst (hhead.trans hletter)), takeWhile_append_of_stops hword,
      dropWhile_append_of_stops hword]
    exact .left _ _
  | number hnumber =>
    rw [PieceRead.eq (.number (readNumber?_return_of_some hnumber))]
    exact .left _ _
  | faultyNumber hnumber =>
    rw [PieceRead.eq (.faultyNumber (readNumber?_return_of_some hnumber))]
    exact .left _ _
  | word hstarts hread =>
    rw [PieceRead.eq (.word hstarts rfl), ← hread]
    exact readWord_return (c :: tail)
  | path hstarts hcommand hnumber =>
    have htake := takeWhile_append_of_stops hpath (c :: tail)
    have hdrop := dropWhile_append_of_stops hpath (c :: tail)
    rw [List.cons_append] at htake hdrop
    rw [PieceRead.eq (.path hstarts (by rw [hhead, hcommand])
      (readNumber?_return_of_none hnumber)), htake, hdrop]
    exact .left _ _
  | illegal hsemicolon hquote hbrace hnumber hword hpath =>
    rw [PieceRead.eq (.illegal hsemicolon hquote hbrace (readNumber?_return_of_none hnumber)
      hword hpath)]
    exact .left _ tail

end Lexer

/-! ## Lines -/

/-- The lexeme is no comment. -/
def Lexeme.isUseful : Lexeme → Bool
  | token t =>
    match t.kind with
    | .comment => false
    | _ => true
  | fault _ => true

namespace Lexer

open Text (trim isWhiteSpace)

/-- A carriage return at the end of a line changes nothing but a comment. -/
theorem lexPieces_return (line column : Nat) (first : Bool) (cs : List Char) :
    (lexPieces line column first (cs ++ ['\r'])).filter Lexeme.isUseful =
      (lexPieces line column first cs).filter Lexeme.isUseful := by
  fun_induction lexPieces line column first cs with
  | case1 column first =>
    rw [List.nil_append, lexPieces, if_pos (by decide), lexPieces]
  | case2 column first c tail hblank ih =>
    rw [List.cons_append, lexPieces, if_pos hblank]
    exact ih
  | case3 column first c tail hblank taken ih =>
    by_cases hc : c = ';'
    · subst hc
      have hrest : taken.rest = [] := rfl
      rw [List.cons_append, lexPieces_semicolon, hrest, lexPieces]
      rfl
    · have hpiece : LeavesReturn (readPiece first c (tail ++ ['\r'])) taken :=
        readPiece_return first hc tail
      generalize hreturned : readPiece first c (tail ++ ['\r']) = returned at hpiece
      clear_value taken
      cases hpiece with
      | left result rest =>
        have hcolumn : (c :: (tail ++ ['\r'])).length - (rest ++ ['\r']).length =
            (c :: tail).length - rest.length := by
          rw [← List.cons_append, List.length_append, List.length_append, Nat.add_sub_add_right]
        rw [List.cons_append, lexPieces_of_readPiece line column hblank hreturned, hcolumn,
          List.filter_cons, List.filter_cons]
        dsimp only at ih ⊢
        rw [ih]
      | ended result =>
        rw [List.cons_append, lexPieces_of_readPiece line column hblank hreturned, lexPieces]
        dsimp only
        rw [lexPieces]

/-- A carriage return at the end is trimmed off. -/
theorem trim_return (cs : List Char) : trim (cs ++ ['\r']) = trim cs := by
  have hreturn : isWhiteSpace '\r' = true := by decide
  unfold trim
  rw [List.dropWhile_append]
  cases cs.dropWhile isWhiteSpace with
  | nil =>
    rw [List.isEmpty_nil, if_pos rfl, List.dropWhile_cons, if_pos hreturn]
    rfl
  | cons c tail =>
    rw [List.isEmpty_cons, if_neg (by simp), List.reverse_append, List.reverse_singleton,
      List.singleton_append, List.dropWhile_cons, if_pos hreturn]

/-- A title is taken without the carriage return. -/
theorem titleOf_return (cs : List Char) : titleOf (cs ++ ['\r']) = titleOf cs := by
  unfold titleOf
  rw [trim_return]

/-- A line with a carriage return at its end is cut like the line without it. -/
theorem lexLine_return (line : Nat) (pending : Bool) (cs : List Char) :
    (lexLine line pending (cs ++ ['\r'])).1.filter Lexeme.isUseful =
        (lexLine line pending cs).1.filter Lexeme.isUseful ∧
      (lexLine line pending (cs ++ ['\r'])).2 = (lexLine line pending cs).2 := by
  cases hstart : cs.dropWhile isBlank with
  | nil =>
    have hreturned : (cs ++ ['\r']).dropWhile isBlank = [] := by
      rw [List.dropWhile_append, hstart]
      rfl
    rw [lexLine_of_blank hstart, lexLine_of_blank hreturned]
    exact ⟨rfl, rfl⟩
  | cons c tail =>
    have hreturned : (cs ++ ['\r']).dropWhile isBlank = c :: (tail ++ ['\r']) := by
      rw [List.dropWhile_append, hstart]
      rfl
    have hcolumn : startColumn (cs ++ ['\r']) = startColumn cs := by
      unfold startColumn
      rw [hreturned, hstart, ← List.cons_append, List.length_append, List.length_append,
        Nat.add_sub_add_right]
    rw [lexLine_of_start hstart, lexLine_of_start hreturned, hcolumn, ← List.cons_append,
      trim_return, titleOf_return]
    split
    · exact ⟨rfl, rfl⟩
    · split
      · exact ⟨rfl, rfl⟩
      · split
        · refine ⟨?_, rfl⟩
          rw [List.filter_cons, List.filter_cons, lexPieces_return]
        · exact ⟨lexPieces_return _ _ _ _, rfl⟩

/-- Lines with a carriage return at the end of each one that a newline ends. -/
def returnedLines : List (List Char) → List (List Char)
  | line :: next :: rest => (line ++ ['\r']) :: returnedLines (next :: rest)
  | last => last

/-- Lines with carriage returns at their ends are cut into the same pieces, comments apart. -/
theorem lexLines_returnedLines (line : Nat) (pending : Bool) (lines : List (List Char)) :
    (lexLines line pending (returnedLines lines)).map (·.filter Lexeme.isUseful) =
      (lexLines line pending lines).map (·.filter Lexeme.isUseful) := by
  induction lines generalizing line pending with
  | nil => rfl
  | cons cs rest ih =>
    cases rest with
    | nil => rfl
    | cons next rest =>
      obtain ⟨hpieces, hpending⟩ := lexLine_return line pending cs
      unfold returnedLines
      rw [lexLines, lexLines]
      dsimp only
      rw [List.map_cons, List.map_cons, hpieces, hpending, ih]

end Lexer

/-! ## Texts -/

namespace Text

/-- The text with a carriage return before every newline. -/
def withReturns (text : String) : String :=
  String.ofList (text.toList.flatMap fun c => if c = '\n' then ['\r', '\n'] else [c])

/-- The lines of a text with carriage returns before its newlines are its lines with carriage
returns at their ends. -/
theorem splitLines_withReturns (text : String) :
    splitLines (withReturns text).toList = Lexer.returnedLines (splitLines text.toList) := by
  unfold withReturns
  rw [String.toList_ofList]
  induction text.toList with
  | nil => rfl
  | cons c cs ih =>
    rw [List.flatMap_cons]
    by_cases hc : c = '\n'
    · subst hc
      rw [if_pos rfl, List.cons_append, List.singleton_append]
      show consHead '\r' ([] :: splitLines _) = Lexer.returnedLines ([] :: splitLines cs)
      rw [ih]
      cases hlines : splitLines cs with
      | nil => exact absurd hlines (splitLines_ne_nil cs)
      | cons line rest => rfl
    · rw [if_neg hc, List.singleton_append, splitLines, if_neg hc, splitLines, if_neg hc, ih]
      cases splitLines cs with
      | nil => rfl
      | cons line rest => cases rest <;> rfl

end Text

namespace Tokenized

open Lexer

/-- The tokens of the pieces that are no comments are the tokens that are no comments. -/
theorem tokens_filter_isUseful (pieces : List Lexeme) :
    (pieces.filter Lexeme.isUseful).filterMap Lexeme.token? =
      (pieces.filterMap Lexeme.token?).filter fun t => (Lexeme.token t).isUseful := by
  induction pieces with
  | nil => rfl
  | cons l rest ih =>
    cases l with
    | fault f => exact ih
    | token t =>
      show _ = (t :: rest.filterMap Lexeme.token?).filter _
      rw [List.filter_cons, List.filter_cons, ← ih]
      split <;> rfl

/-- Comments are not gathered into lines. -/
theorem gather_filter_isUseful (g : Gathering) (tokens : List Token) :
    gather g (tokens.filter fun t => (Lexeme.token t).isUseful) = gather g tokens := by
  have hcontent : (fun t => isContent t && (Lexeme.token t).isUseful) = isContent := by
    funext ⟨kind, text, line, column⟩
    cases kind <;> rfl
  have hplus : (fun t => isPlus t && (Lexeme.token t).isUseful) = isPlus := by
    funext ⟨kind, text, line, column⟩
    cases kind <;> rfl
  have hany : (tokens.filter fun t => (Lexeme.token t).isUseful).any isPlus =
      tokens.any isPlus := by
    have hswap : (fun t => (Lexeme.token t).isUseful && isPlus t) = isPlus := by
      refine Eq.trans ?_ hplus
      exact funext fun t => Bool.and_comm _ _
    rw [List.any_filter, hswap]
  unfold gather
  rw [List.filter_filter, List.filter_filter, hcontent, hplus, hany]

/-- No fault is a comment. -/
theorem faults_filter_isUseful (pieces : List Lexeme) :
    (pieces.filter Lexeme.isUseful).filterMap Lexeme.fault? = pieces.filterMap Lexeme.fault? := by
  induction pieces with
  | nil => rfl
  | cons l rest ih =>
    cases l with
    | fault f => exact congrArg (f :: ·) ih
    | token t =>
      rw [List.filter_cons]
      split <;> exact ih

/-- Comments are of no use. -/
theorem ofPieces_filter (pieces : List (List Lexeme)) :
    ofPieces (pieces.map (·.filter Lexeme.isUseful)) = ofPieces pieces := by
  have hgather : ∀ g : Gathering,
      ((pieces.map (·.filter Lexeme.isUseful)).map (·.filterMap Lexeme.token?)).foldl gather g =
        (pieces.map (·.filterMap Lexeme.token?)).foldl gather g := by
    induction pieces with
    | nil => exact fun _ => rfl
    | cons row rest ih =>
      intro g
      rw [List.map_cons, List.map_cons, List.map_cons, List.foldl_cons, List.foldl_cons,
        tokens_filter_isUseful, gather_filter_isUseful, ih]
  unfold ofPieces
  dsimp only
  rw [hgather, ← List.filter_flatten, faults_filter_isUseful]

end Tokenized

/-- Line endings do not matter: with a carriage return before every newline, a text has the same
logical lines and the same faults. -/
theorem tokenize_withReturns (text : String) :
    tokenize (Text.withReturns text) = tokenize text := by
  unfold tokenize Lexer.lexText
  rw [← Tokenized.ofPieces_filter, Text.splitLines_withReturns, Lexer.lexLines_returnedLines,
    Tokenized.ofPieces_filter]

end FlatNet
