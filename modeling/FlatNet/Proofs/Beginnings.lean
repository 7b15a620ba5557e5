import FlatNet.Proofs.Faults

/-!
# What a token stands for

A token stands where the text begins with what it is quoted by: a word or a path that goes on as far
as there are characters of it, a numeral, the name of a parameter before its equals sign, or a mark.
Some texts are not quoted as they stand: commands are lower case, magnitude suffixes are turned into
powers of ten, and marks around a text are left out.  `TokenKind.Begins` says for each kind what the
text must begin with, and `begins_of_readPiece` that this is what a piece is read from.
-/

set_option autoImplicit false

namespace FlatNet

open Text (isWordChar lowerCase trim)

/-- The text begins with a token of the kind that is quoted as `text`; the text goes to the end of
its line. -/
def TokenKind.Begins (text : String) (cs : List Char) : TokenKind → Prop
  | .identifier => text ≠ "" ∧ text.toList = cs.takeWhile isWordChar
  | .fileName => text ≠ "" ∧ text.toList = cs.takeWhile Lexer.isPathChar
  | .command => ∃ tail, cs = '.' :: tail ∧
      text.toList = '.' :: lowerCase (tail.takeWhile isWordChar)
  | .integer | .float | .scientific => SignedNumeral text.toList ∧ text.toList <+: cs
  | .scaled => ∃ numeral suffix e rest, SignedNumeral numeral ∧ cs = numeral ++ suffix :: rest ∧
      scaleExponent? suffix = some e ∧ text.toList = numeral ++ exponentChars e
  | .expression value => ∃ raw rest, cs = '\x7b' :: (raw ++ '\x7d' :: rest) ∧ '\x7d' ∉ raw ∧
      text.toList = normalizeScales raw ∧ Expr.parseChars (normalizeScales raw) = .ok value
  | .paramDef name value => name ≠ "" ∧ text = name ++ "=" ++ value.text ∧
      ∃ gap behind, cs = name.toList ++ (gap ++ '=' :: behind) ∧
        (∀ c ∈ gap, Lexer.isGap c = true) ∧
          (Lexer.readValue (behind.dropWhile Lexer.isGap)).result = .value value
  | .quotedString => (∃ rest, cs = '"' :: (text.toList ++ '"' :: rest) ∧ '"' ∉ text.toList) ∨
      trim cs = text.toList ∨ trim cs = '"' :: (text.toList ++ ['"'])
  | .comment => text.toList = cs ∧ (cs.head? = some ';' ∨ cs.head? = some '*')
  | .plus => text = "+" ∧ cs.head? = some '+'
  | .newline => text = "\n" ∧ cs = []

namespace Lexer

variable {cs rest : List Char}

/-! ## Words and numbers -/

/-- A row of characters that begins with one of them is not empty. -/
theorem ofList_takeWhile_ne_empty {p : Char → Bool} {c : Char} (h : p c = true)
    (tail : List Char) : String.ofList ((c :: tail).takeWhile p) ≠ "" := by
  intro heq
  have hlist := congrArg String.toList heq
  rw [String.toList_ofList, List.takeWhile_cons_of_pos h] at hlist
  exact absurd hlist (List.cons_ne_nil _ _)

/-- A number is quoted as it stands, apart from its suffix. -/
theorem begins_of_readNumber?_ok {kind : TokenKind} {literal : List Char}
    (h : readNumber? cs = some ⟨.ok (kind, literal), rest⟩) :
    kind.Begins (String.ofList literal) cs := by
  have hsign : IsSign (Power.readSign cs).1 := Power.sign_of_mem_readSign cs
  have happend := Power.readSign_append cs
  cases readNumber?_eq_some_iff.mp h with
  | @plain l _ hread _ =>
    rw [← Literal.chars_append_read hread, ← List.append_assoc] at happend
    have hboth : SignedNumeral (String.ofList ((Power.readSign cs).1.toList ++ l.chars)).toList ∧
        (String.ofList ((Power.readSign cs).1.toList ++ l.chars)).toList <+: cs := by
      rw [String.toList_ofList]
      exact ⟨⟨hsign, Literal.numeral_of_read hread⟩, ⟨rest, happend⟩⟩
    unfold literalKind
    split <;> exact hboth
  | @scaled l suffix e _ hread hsuffix _ =>
    rw [← Literal.chars_append_read hread, ← List.append_assoc] at happend
    exact ⟨_, suffix, e, rest, ⟨hsign, Literal.numeral_of_read hread⟩, happend.symm, hsuffix,
      String.toList_ofList⟩

/-! ## Texts between marks -/

/-- An expression in braces is read from the text up to the closing brace. -/
theorem begins_of_readBraces_ok {text : String} {e : Expr}
    (h : readBraces cs = ⟨.ok (text, e), rest⟩) :
    (TokenKind.expression e).Begins text ('\x7b' :: cs) := by
  unfold readBraces at h
  split at h
  · rename_i taken hsome
    injection h with hresult hrest
    obtain ⟨htext, hparse⟩ := eq_of_readExpression_ok hresult
    obtain ⟨heq, hraw⟩ := readUntil_eq_some hsome
    exact ⟨taken.result, taken.rest, by rw [heq], hraw, htext, hparse⟩
  · exact absurd (congrArg Taken.result h) (by simp)

/-- The title of a line is the line without the white space around it, and without quotes. -/
theorem begins_title (cs : List Char) :
    TokenKind.quotedString.Begins (String.ofList (titleOf cs)) cs := by
  refine .inr ?_
  rw [String.toList_ofList]
  unfold titleOf
  split
  · rename_i inner htrim
    split
    · rename_i hlast
      right
      rw [htrim, List.dropLast_append_getLast? _ hlast]
    · exact .inl htrim
  · exact .inl rfl

/-! ## Pieces -/

/-- A token that begins with a word stands at the word. -/
theorem begins_of_readWord {c : Char} {tail : List Char} {kind : TokenKind} {text : String}
    (hstarts : startsWord c = true) (h : readWord (c :: tail) = ⟨.token kind text, rest⟩) :
    kind.Begins text (c :: tail) := by
  have hword := isWordChar_of_startsWord hstarts
  cases readWord_eq_iff.mp h with
  | definition hstart hvalue =>
    obtain ⟨gap, behind, hafter, hgap, -, rfl⟩ := eq_of_valueStart? hstart
    refine ⟨ofList_takeWhile_ne_empty hword tail, rfl, gap, behind, ?_, hgap,
      congrArg Taken.result hvalue⟩
    rw [String.toList_ofList, ← hafter, List.takeWhile_append_dropWhile]
  | path _ _ =>
    exact ⟨ofList_takeWhile_ne_empty (isPathChar_of_isWordChar hword) tail, String.toList_ofList⟩
  | identifier _ _ => exact ⟨ofList_takeWhile_ne_empty hword tail, String.toList_ofList⟩

/-- A token that is a piece stands where the text begins with it. -/
theorem begins_of_readPiece {first : Bool} {c : Char} {tail : List Char} {kind : TokenKind}
    {text : String} (h : readPiece first c tail = ⟨.token kind text, rest⟩) :
    kind.Begins text (c :: tail) := by
  cases readPiece_eq_iff.mp h with
  | comment => exact ⟨String.toList_ofList, .inl rfl⟩
  | quoted hquoted =>
    obtain ⟨heq, hnone⟩ := eq_of_readQuoted hquoted
    refine .inl ⟨rest, ?_⟩
    rw [String.toList_ofList, heq]
    exact ⟨rfl, hnone⟩
  | braces hbraces => exact begins_of_readBraces_ok hbraces
  | command _ _ => exact ⟨tail, rfl, String.toList_ofList⟩
  | number hnumber => exact begins_of_readNumber?_ok hnumber
  | word hstarts hword => exact begins_of_readWord hstarts hword
  | path hstarts _ _ =>
    exact ⟨ofList_takeWhile_ne_empty (isPathChar_of_startsPath hstarts) tail,
      String.toList_ofList⟩

end Lexer

end FlatNet
