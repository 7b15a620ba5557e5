import FlatNet.Proofs.Cutting

/-!
# Blanks at the end of a line

No token but a comment takes the blanks behind it: a reader that is given a line with a blank at
its end leaves that blank.  So a line without faults says the same without the blanks at its end.
-/

set_option autoImplicit false

namespace FlatNet

/-- What a token says, wherever it stands. -/
def Token.said (t : Token) : TokenKind × String := (t.kind, t.text)

/-- What a piece says if it is a token of use. -/
def Piece.said? : Piece → Option (TokenKind × String)
  | token kind text => if Tokenized.isContent ⟨kind, text, 0, 0⟩ then some (kind, text) else none
  | fault _ _ => none

/-- What the tokens of use among some pieces say. -/
def said (pieces : List Lexeme) : List (TokenKind × String) :=
  ((pieces.filterMap Lexeme.token?).filter Tokenized.isContent).map Token.said

namespace Lexer

open Text (isWordChar)

/-! ## What pieces say -/

/-- Pieces say what the first one says, and then what the others say. -/
theorem said_cons (lexeme : Lexeme) (rest : List Lexeme) :
    said (lexeme :: rest) = lexeme.piece.said?.toList ++ said rest := by
  cases lexeme with
  | fault f => rfl
  | token t =>
    have hcontent : Tokenized.isContent ⟨t.kind, t.text, 0, 0⟩ = Tokenized.isContent t := rfl
    unfold said
    rw [List.filterMap_cons]
    dsimp only [Lexeme.token?, Lexeme.piece, Piece.said?]
    rw [List.filter_cons, hcontent]
    split <;> rfl

/-- What is said depends on the pieces alone, not on their places. -/
theorem said_eq (l : List Lexeme) : said l = (l.map Lexeme.piece).filterMap Piece.said? := by
  induction l with
  | nil => rfl
  | cons lexeme rest ih =>
    rw [said_cons, List.map_cons, List.filterMap_cons, ih]
    cases lexeme.piece.said? <;> rfl

/-- Equal pieces at different places say the same. -/
theorem said_congr {l l' : List Lexeme} (h : l.map Lexeme.piece = l'.map Lexeme.piece) :
    said l = said l' := by
  rw [said_eq, said_eq, h]

/-- Pieces say one after another what each part says. -/
theorem said_append (l l' : List Lexeme) : said (l ++ l') = said l ++ said l' := by
  rw [said_eq, said_eq, said_eq, List.map_append, List.filterMap_append]

/-- Whether there are faults depends on the pieces and not on their places. -/
theorem clean_congr {l l' : List Lexeme} (h : l.map Lexeme.piece = l'.map Lexeme.piece)
    (hclean : Clean l) : Clean l' := by
  have hpieces : ∀ {l : List Lexeme}, Clean l ↔
      ∀ p ∈ l.map Lexeme.piece, p.problem? = none := by
    intro l
    rw [List.forall_mem_map]
    refine forall₂_congr fun lexeme _ => ?_
    cases lexeme <;> simp [Lexeme.fault?, Lexeme.piece, Piece.problem?]
  rw [hpieces] at hclean ⊢
  rwa [← h]

/-! ## Readers -/

section Readers

variable {x : Char} {cs rest : List Char}

/-- A blank is part of nothing that a reader takes, unless it stands between two marks. -/
theorem blank_facts (h : isBlank x = true) :
    x.isDigit = false ∧ isWordChar x = false ∧ isPathChar x = false ∧ scaleExponent? x = none ∧
      x ∉ ['+', '-', '.', 'e', 'E', '"', '\x7b', '\x7d', '='] := by
  simp only [isBlank, Bool.or_eq_true, beq_iff_eq] at h
  rcases h with (rfl | rfl) | rfl <;> decide

/-- The last character stays when a different one in front is taken. -/
theorem getLast?_tail {c : Char} {tail : List Char} (hc : c ≠ x)
    (h : (c :: tail).getLast? = some x) : tail.getLast? = some x := by
  cases tail with
  | nil => exact absurd (Option.some.inj h) hc
  | cons d tail => rwa [List.getLast?_cons_cons] at h

/-- The last character stays when characters in front are dropped that it is not one of. -/
theorem getLast?_dropWhile {p : Char → Bool} (hx : p x = false) (h : cs.getLast? = some x) :
    (cs.dropWhile p).getLast? = some x := by
  induction cs with
  | nil => exact absurd h (by simp)
  | cons c tail ih =>
    cases hc : p c with
    | true =>
      rw [List.dropWhile_cons_of_pos hc]
      refine ih (getLast?_tail ?_ h)
      rintro rfl
      rw [hx] at hc
      exact absurd hc (by simp)
    | false => rwa [List.dropWhile_cons_of_neg (by simp [hc])]

variable (hx : isBlank x = true)

include hx

/-- A sign in front of a power is no blank, so the last blank stays. -/
theorem getLast?_readSign (h : cs.getLast? = some x) :
    (Power.readSign cs).2.getLast? = some x := by
  obtain ⟨-, -, -, -, hmarks⟩ := blank_facts hx
  cases cs with
  | nil => exact h
  | cons c tail =>
    unfold Power.readSign
    dsimp only
    split
    · rename_i hsign
      refine getLast?_tail ?_ h
      rintro rfl
      rcases hsign with rfl | rfl <;> exact hmarks (by simp)
    · exact h

/-- A power is read without the blank at the end. -/
theorem getLast?_readPower (h : cs.getLast? = some x) : (Power.read cs).2.getLast? = some x := by
  obtain ⟨hdigit, -, -, -, hmarks⟩ := blank_facts hx
  cases cs with
  | nil => exact h
  | cons c tail =>
    unfold Power.read
    dsimp only
    split
    · rename_i hmark
      have htail : tail.getLast? = some x := by
        refine getLast?_tail ?_ h
        rintro rfl
        rcases hmark with rfl | rfl <;> exact hmarks (by simp)
      split
      · exact h
      · exact getLast?_dropWhile hdigit (getLast?_readSign hx htail)
    · exact h

/-- A fraction is read without the blank at the end. -/
theorem getLast?_readFraction (h : cs.getLast? = some x) :
    (Literal.readFraction cs).2.getLast? = some x := by
  obtain ⟨hdigit, -, -, -, hmarks⟩ := blank_facts hx
  cases cs with
  | nil => exact h
  | cons c tail =>
    unfold Literal.readFraction
    dsimp only
    split
    · rename_i hpoint
      refine getLast?_dropWhile hdigit (getLast?_tail ?_ h)
      rintro rfl
      exact hmarks (by simp [hpoint])
    · exact h

/-- A literal is read without the blank at the end. -/
theorem getLast?_readLiteral {l : Literal} (hread : Literal.read cs = some (l, rest))
    (h : cs.getLast? = some x) : rest.getLast? = some x := by
  unfold Literal.read at hread
  dsimp only at hread
  split at hread
  · exact absurd hread (by simp)
  · obtain ⟨-, rfl⟩ := Prod.mk.inj (Option.some.inj hread)
    exact getLast?_readPower hx
      (getLast?_readFraction hx (getLast?_dropWhile (blank_facts hx).1 h))

/-- A number with its scale is read without the blank at the end. -/
theorem getLast?_readNumber? {result : Except Problem (TokenKind × List Char)}
    (hread : readNumber? cs = some ⟨result, rest⟩) (h : cs.getLast? = some x) :
    rest.getLast? = some x := by
  cases readNumber?_eq_some_iff.1 hread with
  | plain hliteral _ => exact getLast?_readLiteral hx hliteral (getLast?_readSign hx h)
  | scaled hliteral hsuffix _ | malformed hliteral hsuffix _ =>
    refine getLast?_tail ?_ (getLast?_readLiteral hx hliteral (getLast?_readSign hx h))
    rintro rfl
    rw [(blank_facts hx).2.2.2.1] at hsuffix
    exact absurd hsuffix (by simp)

omit hx in
/-- Reading up to a mark, and past it, leaves the blank at the end. -/
theorem getLast?_readUntil {mark : Char} {text : List Char} (hmark : mark ≠ x)
    (hread : readUntil mark cs = some ⟨text, rest⟩) (h : cs.getLast? = some x) :
    rest.getLast? = some x := by
  unfold readUntil at hread
  split at hread
  · exact absurd hread (by simp)
  · rename_i c behind hdrop
    injection hread with hread
    injection hread with _ hrest
    have hstops := List.head?_dropWhile_not (· != mark) cs
    rw [hdrop] at hstops
    dsimp only [List.head?_cons] at hstops
    have hsuffix : (c :: behind).getLast? = some x := by
      obtain ⟨front, hfront⟩ := List.dropWhile_suffix (· != mark) (l := cs)
      rw [hdrop] at hfront
      rwa [← hfront, List.getLast?_append_cons] at h
    have hc : c = mark := by simpa using hstops
    rw [← hrest]
    exact getLast?_tail (hc ▸ hmark) hsuffix

/-- A quoted text ends at its quote, so the blank at the end of the line stays behind it. -/
theorem getLast?_readQuoted {text : List Char} (hread : readQuoted cs = ⟨.ok text, rest⟩)
    (h : cs.getLast? = some x) : rest.getLast? = some x := by
  unfold readQuoted at hread
  split at hread
  · rename_i taken htaken
    injection hread with _ hrest
    rw [← hrest]
    refine getLast?_readUntil ?_ htaken h
    rintro rfl
    exact absurd hx (by decide)
  · exact absurd (congrArg Taken.result hread) (by simp)

/-- An expression in braces ends at its brace, so the blank at the end of the line stays behind
it. -/
theorem getLast?_readBraces {value : String × Expr} (hread : readBraces cs = ⟨.ok value, rest⟩)
    (h : cs.getLast? = some x) : rest.getLast? = some x := by
  unfold readBraces at hread
  split at hread
  · rename_i taken htaken
    injection hread with _ hrest
    rw [← hrest]
    refine getLast?_readUntil ?_ htaken h
    rintro rfl
    exact absurd hx (by decide)
  · exact absurd (congrArg Taken.result hread) (by simp)

/-- A value behind an equals sign is read without the blank at the end. -/
theorem getLast?_readValue {e : Expr} (hread : readValue cs = ⟨.value e, rest⟩)
    (h : cs.getLast? = some x) : rest.getLast? = some x := by
  obtain ⟨-, hword, -, -, hmarks⟩ := blank_facts hx
  cases readValue_eq_iff.1 hread with
  | braces hbraces =>
    refine getLast?_readBraces hx hbraces (getLast?_tail ?_ h)
    rintro rfl
    exact hmarks (by simp)
  | quoted hquoted _ =>
    refine getLast?_readQuoted hx hquoted (getLast?_tail ?_ h)
    rintro rfl
    exact hmarks (by simp)
  | name _ => exact getLast?_dropWhile hword h
  | number hnumber _ => exact getLast?_readNumber? hx hnumber h

omit hx in
/-- The end of a text is the end of every suffix of it that is not empty. -/
theorem getLast?_of_suffix {start : List Char} (hsuffix : start <:+ cs) (hne : start ≠ [])
    (h : cs.getLast? = some x) : start.getLast? = some x := by
  obtain ⟨front, rfl⟩ := hsuffix
  rwa [List.getLast?_append_of_ne_nil _ hne] at h

omit hx in
/-- A value starts in the text behind the word. -/
theorem valueStart?_suffix {start : List Char} (h : valueStart? cs = some start) :
    start <:+ cs := by
  unfold valueStart? at h
  split at h
  · exact absurd h (by simp)
  · rename_i behind _ hdrop
    rw [← Option.some.inj h]
    refine (List.dropWhile_suffix isGap).trans ?_
    have hsuffix : '=' :: behind <:+ cs := hdrop ▸ List.dropWhile_suffix isGap
    exact (List.suffix_cons _ _).trans hsuffix
  · exact absurd h (by simp)

/-- A word, with its value if there is one, is read without the blank at the end. -/
theorem getLast?_readWord {kind : TokenKind} {text : String}
    (hread : readWord cs = ⟨.token kind text, rest⟩) (h : cs.getLast? = some x) :
    rest.getLast? = some x := by
  obtain ⟨-, hword, hpath, -⟩ := blank_facts hx
  cases readWord_eq_iff.1 hread with
  | definition hstart hvalue =>
    rename_i start _
    have hne : start ≠ [] := List.ne_nil_of_length_pos
      (Nat.lt_of_le_of_lt (Nat.zero_le _) (length_readValue_lt hvalue))
    exact getLast?_readValue hx hvalue
      (getLast?_of_suffix (valueStart?_suffix hstart) hne (getLast?_dropWhile hword h))
  | path _ _ => exact getLast?_dropWhile hpath h
  | identifier _ _ => exact getLast?_dropWhile hword h

/-- Of tokens, only a comment reaches into the blanks behind it. -/
theorem getLast?_readPiece {first : Bool} {c : Char} {tail : List Char} {kind : TokenKind}
    {text : String} (hread : readPiece first c tail = ⟨.token kind text, rest⟩) (hc : c ≠ ';')
    (hblank : isBlank c = false) (h : (c :: tail).getLast? = some x) :
    rest.getLast? = some x := by
  obtain ⟨-, hword, hpath, -⟩ := blank_facts hx
  have htail : tail.getLast? = some x := by
    refine getLast?_tail ?_ h
    rintro rfl
    rw [hx] at hblank
    exact absurd hblank (by simp)
  cases readPiece_eq_iff.1 hread with
  | comment => exact absurd rfl hc
  | quoted hquoted => exact getLast?_readQuoted hx hquoted htail
  | braces hbraces => exact getLast?_readBraces hx hbraces htail
  | command _ _ => exact getLast?_dropWhile hword htail
  | number hnumber => exact getLast?_readNumber? hx hnumber h
  | word _ hread => exact getLast?_readWord hx hread h
  | path _ _ _ => exact getLast?_dropWhile hpath h

end Readers

/-! ## Lines -/

/-- Without a blank at its end a line without faults says the same. -/
theorem said_lexPieces_concat {line column : Nat} {first : Bool} {a : List Char} {x : Char}
    (hx : isBlank x = true) (hclean : Clean (lexPieces line column first (a ++ [x]))) :
    Clean (lexPieces line column first a) ∧
      said (lexPieces line column first (a ++ [x])) = said (lexPieces line column first a) := by
  generalize hcs : a ++ [x] = cs at hclean ⊢
  induction column, first, cs using lexPieces.induct generalizing a with
  | case1 column first => exact absurd hcs (by simp)
  | case2 column first c tail hblank ih =>
    rw [lexPieces, if_pos hblank] at hclean ⊢
    cases a with
    | nil =>
      obtain ⟨rfl, rfl⟩ := List.cons.inj hcs
      rw [lexPieces, lexPieces]
      exact ⟨List.forall_mem_nil _, rfl⟩
    | cons d front =>
      rw [List.cons_append] at hcs
      obtain ⟨rfl, rfl⟩ := List.cons.inj hcs
      rw [lexPieces, if_pos hblank]
      exact ih rfl hclean
  | case3 column first c tail hblank taken =>
    rename_i ih
    cases a with
    | nil =>
      obtain ⟨rfl, rfl⟩ := List.cons.inj hcs
      exact absurd hx hblank
    | cons d front =>
      rw [List.cons_append] at hcs
      obtain ⟨rfl, rfl⟩ := List.cons.inj hcs
      by_cases hsemicolon : d = ';'
      · subst hsemicolon
        rw [lexPieces_semicolon, lexPieces_semicolon]
        exact ⟨List.forall_mem_singleton.2 rfl, rfl⟩
      · obtain ⟨kind, text, rest, hread, hrest⟩ := exists_token_of_clean hblank hclean
        have htaken : taken = ⟨.token kind text, rest⟩ := hread
        rw [htaken] at ih
        have hend : (d :: (front ++ [x])).getLast? = some x := by
          rw [← List.cons_append, List.getLast?_concat]
        have hlast := getLast?_readPiece hx hread hsemicolon (Bool.eq_false_iff.2 hblank) hend
        obtain ⟨front', rfl⟩ := List.getLast?_eq_some_iff.1 hlast
        obtain ⟨r, hr, hread'⟩ := readPiece_cut hread (by simp) (ne_equals_of_clean hrest)
        obtain ⟨rfl, -⟩ := List.append_inj' hr rfl
        obtain ⟨hclean', hsaid⟩ := ih rfl hrest
        have hplace : (d :: (front ++ [x])).length - (front' ++ [x]).length =
            (d :: front).length - front'.length := by
          simp
        dsimp only at hclean' hsaid
        rw [hplace] at hclean' hsaid
        rw [lexPieces_of_readPiece line column hblank hread,
          lexPieces_of_readPiece line column hblank hread', hplace]
        rw [said_cons, said_cons, hsaid]
        exact ⟨List.forall_mem_cons.2 ⟨rfl, hclean'⟩, rfl⟩

/-- Without the blanks at its end a line without faults says the same. -/
theorem said_lexPieces_blanks {line column : Nat} {first : Bool} {a gap : List Char}
    (hgap : ∀ c ∈ gap, isBlank c = true)
    (hclean : Clean (lexPieces line column first (a ++ gap))) :
    Clean (lexPieces line column first a) ∧
      said (lexPieces line column first (a ++ gap)) = said (lexPieces line column first a) := by
  induction gap using List.reverseRecOn with
  | nil =>
    rw [List.append_nil] at hclean ⊢
    exact ⟨hclean, rfl⟩
  | append_singleton gap x ih =>
    obtain ⟨hgap', hx⟩ := List.forall_mem_append.1 hgap
    rw [← List.append_assoc] at hclean ⊢
    obtain ⟨hclean', hsaid⟩ :=
      said_lexPieces_concat (hx x (List.mem_singleton.2 rfl)) hclean
    obtain ⟨hclean'', hsaid'⟩ := ih hgap' hclean'
    exact ⟨hclean'', hsaid.trans hsaid'⟩

end Lexer

end FlatNet
