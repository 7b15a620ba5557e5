import FlatNet.Proofs.Blanks

/-!
# Continued lines

The tokens of a line can be written on several lines: a line that begins with a plus sign goes on
where the line before it ended, and lines without tokens between the two do not matter.  Every
kind of token is read on such a line as it is read in the middle of one, except that a path which
begins with a point and a letter is taken for a command, since no token stands before it.  The main
statement is that this is the only exception.
-/

set_option autoImplicit false

namespace FlatNet

/-- The piece is the mark of a continuation line. -/
def Piece.isMark : Piece → Bool
  | token .plus _ => true
  | _ => false

namespace Text

/-- The text of some lines. -/
def unlines (lines : List (List Char)) : String := String.ofList (['\n'].intercalate lines)

/-- The lines of a text that is made of lines are those lines. -/
theorem splitLines_unlines {lines : List (List Char)} (hne : lines ≠ [])
    (h : ∀ l ∈ lines, '\n' ∉ l) : splitLines (unlines lines).toList = lines := by
  unfold unlines
  rw [String.toList_ofList]
  induction lines with
  | nil => exact absurd rfl hne
  | cons l rest ih =>
    obtain ⟨hl, hrest⟩ := List.forall_mem_cons.1 h
    cases rest with
    | nil =>
      rw [show ['\n'].intercalate [l] = l by simp [List.intercalate]]
      exact splitLines_of_not_mem hl
    | cons m rest =>
      have hlines : ['\n'].intercalate (l :: m :: rest) =
          l ++ '\n' :: ['\n'].intercalate (m :: rest) := by
        simp [List.intercalate]
      rw [hlines, splitLines_append, splitLines_of_not_mem hl, ih (List.cons_ne_nil m rest) hrest]
      rfl

end Text

namespace Lexer

variable {line column : Nat} {first : Bool}

/-! ## Groups of tokens -/

/-- The line has no tokens but a comment. -/
def IsIdle (l : List Char) : Prop :=
  '\n' ∉ l ∧ ∀ c ∈ (l.dropWhile isBlank).head?, c = '*' ∨ c = ';'

instance (l : List Char) : Decidable (IsIdle l) :=
  @instDecidableAnd _ _ _ (Option.decidableForallMem _)

/-- A group of tokens that is to be written on a line of its own: the blanks in front of it, which
are left out then, its text, and the lines that are put in front of its own. -/
structure Group where
  gap : List Char
  text : List Char
  skipped : List (List Char)
  blank : ∀ c ∈ gap, isBlank c = true
  idle : ∀ l ∈ skipped, IsIdle l

/-- The group as it stands in the line that it is taken from. -/
def Group.part (g : Group) : List Char := g.gap ++ g.text

/-- The group on a line of its own, behind the lines that are put in front. -/
def Group.lines (g : Group) : List (List Char) := g.skipped ++ ['+' :: ' ' :: g.text]

/-- Behind a column, the groups begin at columns with a property. -/
def Begin (P : Nat → Prop) (column : Nat) : List Group → Prop
  | [] => True
  | g :: rest => P (column + g.gap.length) ∧ Begin P (column + g.part.length) rest

instance decidableBegin (P : Nat → Prop) [DecidablePred P] :
    ∀ (column : Nat) (later : List Group), Decidable (Begin P column later)
  | _, [] => inferInstanceAs (Decidable True)
  | column, g :: rest =>
    have := decidableBegin P (column + g.part.length) rest
    inferInstanceAs (Decidable (_ ∧ _))

/-- Groups begin at columns with every property that follows from the one that they have. -/
theorem Begin.imp {P Q : Nat → Prop} {later : List Group} (h : Begin P column later)
    (himp : ∀ k, column ≤ k → P k → Q k) : Begin Q column later := by
  induction later generalizing column with
  | nil => trivial
  | cons g rest ih =>
    exact ⟨himp _ (Nat.le_add_right _ _) h.1,
      ih h.2 fun k hk => himp k ((Nat.le_add_right _ _).trans hk)⟩

/-- A token is among those of the pieces exactly if it is one of the pieces. -/
theorem mem_tokens_iff {pieces : List Lexeme} {t : Token} :
    t ∈ pieces.filterMap Lexeme.token? ↔ Lexeme.token t ∈ pieces := by
  rw [List.mem_filterMap]
  constructor
  · rintro ⟨lexeme, hmem, htoken⟩
    cases lexeme with
    | token u => rwa [← Option.some.inj htoken]
    | fault f => exact absurd htoken (by simp [Lexeme.token?])
  · exact fun hmem => ⟨_, hmem, rfl⟩

/-- A token of a line begins at a column. -/
def BeginsAt (pieces : List Lexeme) (k : Nat) : Prop :=
  ∃ t ∈ pieces.filterMap Lexeme.token?, t.column = k

instance (pieces : List Lexeme) : DecidablePred (BeginsAt pieces) :=
  fun k => inferInstanceAs (Decidable (∃ t ∈ pieces.filterMap Lexeme.token?, t.column = k))

/-- No token begins at a blank. -/
theorem not_isBlank_of_beginsAt {c : Char} {tail : List Char}
    (h : BeginsAt (lexPieces line column first (c :: tail)) column) : isBlank c = false := by
  obtain ⟨t, ht, hcolumn⟩ := h
  rw [mem_tokens_iff] at ht
  by_contra hblank
  rw [Bool.not_eq_false] at hblank
  rw [lexPieces, if_pos hblank] at ht
  have hbounds := column_of_mem_lexPieces ht
  omega

/-- A token that begins behind the first pieces is among the others. -/
theorem BeginsAt.right {l l' : List Lexeme} {k : Nat} (h : BeginsAt (l ++ l') k)
    (hleft : ∀ t, Lexeme.token t ∈ l → t.column < k) : BeginsAt l' k := by
  obtain ⟨t, ht, hcolumn⟩ := h
  rcases List.mem_append.1 (mem_tokens_iff.1 ht) with hmem | hmem
  · exact absurd hcolumn (Nat.ne_of_lt (hleft t hmem))
  · exact ⟨t, mem_tokens_iff.2 hmem, hcolumn⟩

section Groups

variable {p : List Char} {g : Group} {later : List Group}

/-- In front of a group the line is cut, and the blanks before the cut do not matter. -/
theorem said_lexPieces_cut {b : List Char}
    (hclean : Clean (lexPieces line column first (p ++ (g.gap ++ b))))
    (hcut : BeginsAt (lexPieces line column first (p ++ (g.gap ++ b)))
      (column + p.length + g.gap.length)) :
    ∃ behind, lexPieces line column first (p ++ (g.gap ++ b)) =
        lexPieces line column first (p ++ g.gap) ++
          lexPieces line (column + p.length + g.gap.length) behind b ∧
      Clean (lexPieces line column first p) ∧
      said (lexPieces line column first (p ++ g.gap)) = said (lexPieces line column first p) ∧
      (behind = true → first = true ∧ lexPieces line column first (p ++ g.gap) = []) := by
  have hlength : column + p.length + g.gap.length = column + (p ++ g.gap).length := by
    rw [List.length_append]
    omega
  rw [← List.append_assoc] at hclean hcut ⊢
  rw [hlength] at hcut ⊢
  obtain ⟨t, ht, hcolumn⟩ := hcut
  have hwhole := lexPieces_cut hclean ⟨t, mem_tokens_iff.1 ht, hcolumn⟩
  rw [hwhole] at hclean
  obtain ⟨hclean', hsaid⟩ := said_lexPieces_blanks g.blank (List.forall_mem_append.1 hclean).1
  refine ⟨_, hwhole, hclean', hsaid, fun hbehind => ?_⟩
  obtain ⟨hfirst, hempty⟩ := Bool.and_eq_true_iff.1 hbehind
  exact ⟨hfirst, List.isEmpty_iff.1 hempty⟩

/-- The text of a group is read without faults, and no blank begins it. -/
def Group.Sound (g : Group) : Prop :=
  Clean (lexPieces 1 1 false g.text) ∧ ∀ c ∈ g.text.head?, isBlank c = false

/-- A line that is cut in front of groups, with a token before the first of them, says what stands
before the groups and what the groups say. -/
theorem said_lexPieces_groups
    (hclean : Clean (lexPieces line column first (p ++ later.flatMap Group.part)))
    (hbegins : Begin (BeginsAt (lexPieces line column first (p ++ later.flatMap Group.part)))
      (column + p.length) later)
    (hfirst : first = true → ∃ t,
      Lexeme.token t ∈ lexPieces line column first (p ++ later.flatMap Group.part) ∧
        t.column < column + p.length) :
    Clean (lexPieces line column first p) ∧ (∀ g ∈ later, g.Sound) ∧
      said (lexPieces line column first (p ++ later.flatMap Group.part)) =
        said (lexPieces line column first p) ++
          later.flatMap fun g => said (lexPieces 1 1 false g.text) := by
  induction later generalizing column first p with
  | nil =>
    rw [List.flatMap_nil, List.append_nil] at hclean ⊢
    exact ⟨hclean, List.forall_mem_nil _, by rw [List.flatMap_nil, List.append_nil]⟩
  | cons g rest ih =>
    have hpart : (g :: rest).flatMap Group.part =
        g.gap ++ (g.text ++ rest.flatMap Group.part) := by
      rw [List.flatMap_cons, Group.part, List.append_assoc]
    rw [hpart] at hclean hbegins hfirst ⊢
    obtain ⟨hcut, hlater⟩ := hbegins
    obtain ⟨behind, hwhole, hclean', hsaid, hflag⟩ := said_lexPieces_cut hclean hcut
    have hinside : behind = false := by
      by_contra hbehind
      rw [Bool.not_eq_false] at hbehind
      obtain ⟨htrue, hnil⟩ := hflag hbehind
      obtain ⟨t, ht, hbefore⟩ := hfirst htrue
      rw [hwhole, hnil, List.nil_append] at ht
      have hbounds := column_of_mem_lexPieces ht
      omega
    subst hinside
    rw [hwhole] at hclean hcut hlater ⊢
    have hright : ∀ k, column + p.length + g.gap.length ≤ k →
        BeginsAt (lexPieces line column first (p ++ g.gap) ++
          lexPieces line (column + p.length + g.gap.length) false
            (g.text ++ rest.flatMap Group.part)) k →
        BeginsAt (lexPieces line (column + p.length + g.gap.length) false
          (g.text ++ rest.flatMap Group.part)) k := by
      refine fun k hk h => h.right fun t ht => ?_
      have hbounds := (column_of_mem_lexPieces ht).2
      rw [List.length_append] at hbounds
      omega
    have hlength : column + p.length + g.part.length =
        column + p.length + g.gap.length + g.text.length := by
      rw [Group.part, List.length_append]
      omega
    rw [hlength] at hlater
    obtain ⟨hgroup, hrest, hsaid'⟩ := ih (List.forall_mem_append.1 hclean).2
      (hlater.imp fun k hk => hright k (by omega)) (fun h => absurd h (by simp))
    have hplace := piece_lexPieces line (column + p.length + g.gap.length) 1 1 false g.text
    refine ⟨hclean', List.forall_mem_cons.2 ⟨⟨clean_congr hplace hgroup, ?_⟩, hrest⟩, ?_⟩
    · intro c hc
      obtain ⟨tail, htail⟩ := List.head?_eq_some_iff.1 hc
      have hhere := hright _ (Nat.le_refl _) hcut
      rw [htail, List.cons_append] at hhere
      exact not_isBlank_of_beginsAt hhere
    · rw [said_append, hsaid, hsaid', said_congr hplace, List.flatMap_cons]

/-- What stands before the groups says something if a token of use does. -/
theorem said_ne_nil_of_before {t : Token}
    (hclean : Clean (lexPieces line column first (p ++ later.flatMap Group.part)))
    (hbegins : Begin (BeginsAt (lexPieces line column first (p ++ later.flatMap Group.part)))
      (column + p.length) later)
    (ht : Lexeme.token t ∈ lexPieces line column first (p ++ later.flatMap Group.part))
    (hcontent : Tokenized.isContent t = true) (hbefore : t.column < column + p.length) :
    said (lexPieces line column first p) ≠ [] := by
  have hsays : ∀ {l : List Lexeme}, Lexeme.token t ∈ l → said l ≠ [] := by
    intro l hl hnil
    have hmem : t ∈ (l.filterMap Lexeme.token?).filter Tokenized.isContent :=
      List.mem_filter.2 ⟨List.mem_filterMap.2 ⟨_, hl, rfl⟩, hcontent⟩
    rw [List.map_eq_nil_iff.1 hnil] at hmem
    exact absurd hmem List.not_mem_nil
  cases later with
  | nil =>
    rw [List.flatMap_nil, List.append_nil] at ht
    exact hsays ht
  | cons g rest =>
    rw [List.flatMap_cons, Group.part, List.append_assoc] at hclean hbegins ht
    obtain ⟨behind, hwhole, -, hsaid, -⟩ := said_lexPieces_cut hclean hbegins.1
    rw [hwhole] at ht
    rw [← hsaid]
    rcases List.mem_append.1 ht with hleft | hright
    · exact hsays hleft
    · have hbounds := column_of_mem_lexPieces hright
      omega

/-- A line with a token of use before its groups says what stands before them, which is something,
and what the groups say. -/
theorem said_lexPieces_groups_of_token {t : Token}
    (hclean : Clean (lexPieces line column first (p ++ later.flatMap Group.part)))
    (hbegins : Begin (BeginsAt (lexPieces line column first (p ++ later.flatMap Group.part)))
      (column + p.length) later)
    (ht : Lexeme.token t ∈ lexPieces line column first (p ++ later.flatMap Group.part))
    (hcontent : Tokenized.isContent t = true) (hbefore : t.column < column + p.length) :
    Clean (lexPieces line column first p) ∧ (∀ g ∈ later, g.Sound) ∧
      said (lexPieces line column first p) ≠ [] ∧
      said (lexPieces line column first (p ++ later.flatMap Group.part)) =
        said (lexPieces line column first p) ++
          later.flatMap fun g => said (lexPieces 1 1 false g.text) := by
  obtain ⟨hfront, hsound, hsaid⟩ :=
    said_lexPieces_groups hclean hbegins fun _ => ⟨t, ht, hbefore⟩
  exact ⟨hfront, hsound, said_ne_nil_of_before hclean hbegins ht hcontent hbefore, hsaid⟩

end Groups

/-! ## At the beginning of a line -/

/-- The text begins with a point and a letter. -/
def beginsCommand : List Char → Bool
  | '.' :: c :: _ => c.isAlpha
  | _ => false

/-- A text that begins neither with a blank nor like a command is read at the beginning of a line
as it is read elsewhere. -/
theorem lexPieces_first {text : List Char} (hblank : ∀ c ∈ text.head?, isBlank c = false)
    (h : beginsCommand text = false) :
    lexPieces line column true text = lexPieces line column false text := by
  cases text with
  | nil => rw [lexPieces, lexPieces]
  | cons c tail =>
    have hc : ¬isBlank c = true := by simp [hblank c rfl]
    have hcommand : (c == '.' && tail.head?.any Char.isAlpha) = false := by
      by_contra hcommand
      rw [Bool.not_eq_false, Bool.and_eq_true, beq_iff_eq] at hcommand
      obtain ⟨rfl, hletter⟩ := hcommand
      cases tail with
      | nil => exact absurd hletter (by simp)
      | cons d tail => exact absurd (h.symm.trans hletter) (by simp)
    have hread : readPiece true c tail = readPiece false c tail := by
      unfold readPiece
      rw [Bool.and_true, Bool.and_false, Bool.false_and, hcommand]
    rw [lexPieces_of_readPiece line column hc hread, lexPieces_of_readPiece line column hc rfl]

/-- A point and a letter begin a command at the beginning of a line and a path elsewhere. -/
theorem said_of_beginsCommand {text : List Char} (h : beginsCommand text = true) :
    (∃ name rest, said (lexPieces line column true text) = (.command, name) :: rest) ∧
      ∃ name rest, said (lexPieces line column false text) = (.fileName, name) :: rest := by
  obtain ⟨c, tail, rfl, hletter⟩ : ∃ c tail, text = '.' :: c :: tail ∧ c.isAlpha = true := by
    unfold beginsCommand at h
    split at h
    · exact ⟨_, _, rfl, h⟩
    · exact absurd h (by simp)
  have hcommand : PieceRead true '.' (c :: tail) _ := .command rfl hletter
  have hpath : PieceRead false '.' (c :: tail) _ :=
    .path (by decide) rfl (readNumber?_of_isAlpha hletter)
  rw [lexPieces_of_readPiece line column (by decide) hcommand.eq,
    lexPieces_of_readPiece line column (by decide) hpath.eq, said_cons, said_cons]
  exact ⟨⟨_, _, rfl⟩, _, _, rfl⟩

/-- No piece of a line is the mark of a continuation line. -/
theorem isMark_readPiece (first : Bool) (c : Char) (tail : List Char) :
    (readPiece first c tail).result.isMark = false := by
  cases hresult : (readPiece first c tail).result with
  | fault problem distance => rfl
  | token kind text =>
    cases tokenRead_of_readPiece hresult with
    | number h =>
      have hkind := kind_of_readNumber? h rfl
      cases kind <;> first | rfl | exact absurd hkind (by simp [TokenKind.isNumeric])
    | _ => rfl

/-- The mark of a continuation line stands nowhere inside a line. -/
theorem any_isPlus_lexPieces (line column : Nat) (first : Bool) (cs : List Char) :
    ((lexPieces line column first cs).filterMap Lexeme.token?).any Tokenized.isPlus = false := by
  induction column, first, cs using lexPieces.induct with
  | case1 column first =>
    rw [lexPieces]
    rfl
  | case2 column first c tail hblank ih =>
    rw [lexPieces, if_pos hblank]
    exact ih
  | case3 column first c tail hblank taken ih =>
    have hmark := isMark_readPiece first c tail
    cases hread : readPiece first c tail with
    | mk result rest =>
      have htaken : taken = ⟨result, rest⟩ := hread
      rw [htaken] at ih
      rw [hread] at hmark
      rw [lexPieces_of_readPiece line column hblank hread, List.filterMap_cons]
      cases result with
      | fault problem distance => exact ih
      | token kind text =>
        dsimp only [Piece.place, Lexeme.token?]
        rw [List.any_cons, Bool.or_eq_false_iff]
        exact ⟨by cases kind <;> first | rfl | exact hmark, ih⟩

/-! ## Lines -/

/-- A line of no tokens but a comment has none of use. -/
theorem lexLine_of_idle {l : List Char} (h : IsIdle l) :
    Clean (lexLine line false l).1 ∧
      ((lexLine line false l).1.filterMap Lexeme.token?).filter Tokenized.isContent = [] ∧
      ((lexLine line false l).1.filterMap Lexeme.token?).any Tokenized.isPlus = false := by
  cases hstart : l.dropWhile isBlank with
  | nil =>
    rw [lexLine_of_blank hstart]
    exact ⟨List.forall_mem_nil _, rfl, rfl⟩
  | cons c tail =>
    have hc := h.2 c (by rw [hstart]; rfl)
    rw [lexLine_of_start hstart]
    rcases hc with rfl | rfl
    · exact ⟨List.forall_mem_singleton.2 rfl, rfl, rfl⟩
    · rw [if_neg (by decide), if_neg (by simp), if_neg (by decide), lexPieces_semicolon]
      exact ⟨List.forall_mem_singleton.2 rfl, rfl, rfl⟩

/-- Behind the title, a line that is no comment is read as it stands or behind its mark. -/
theorem lexLine_behind_title {cs : List Char} {c : Char} {tail : List Char}
    (hstart : cs.dropWhile isBlank = c :: tail) (hstar : c ≠ '*') :
    lexLine line false cs =
      if c = '+' then
        (.token ⟨.plus, "+", line, startColumn cs⟩ ::
          lexPieces line (startColumn cs + 1) true tail, false)
      else (lexPieces line (startColumn cs) true (c :: tail), false) := by
  rw [lexLine_of_start hstart, if_neg (by simp [hstar]), if_neg (by simp)]
  simp only [beq_iff_eq]

/-- A group is read behind the mark of its line. -/
theorem lexLine_of_continued (line : Nat) (text : List Char) :
    lexLine line false ('+' :: ' ' :: text) =
      (.token ⟨.plus, "+", line, 1⟩ :: lexPieces line 3 true text, false) := by
  have hstart : ('+' :: ' ' :: text).dropWhile isBlank = '+' :: ' ' :: text := rfl
  have hcolumn : startColumn ('+' :: ' ' :: text) = 1 := by
    unfold startColumn
    rw [hstart, Nat.sub_self]
  rw [lexLine_behind_title hstart (by decide), if_pos rfl, hcolumn, lexPieces,
    if_pos (by decide)]

/-- The line gives the title. -/
structure IsTitle (title : List Char) : Prop where
  single : '\n' ∉ title
  given : (lexLine 1 true title).2 = false

/-- The line of the title gives one token, which is the title. -/
theorem IsTitle.exists_token {title : List Char} (h : IsTitle title) :
    ∃ t, lexLine 1 true title = ([.token t], false) ∧ Tokenized.isContent t = true ∧
      Tokenized.isPlus t = false := by
  have hgiven := h.given
  cases hstart : title.dropWhile isBlank with
  | nil =>
    rw [lexLine_of_blank hstart] at hgiven
    exact absurd hgiven (by simp)
  | cons c tail =>
    rw [lexLine_of_start hstart] at hgiven ⊢
    split at hgiven
    · exact absurd hgiven (by simp)
    · rename_i hstar
      rw [if_neg hstar]
      split at hgiven
      · rename_i htitle
        rw [if_pos htitle]
        exact ⟨_, rfl, rfl, rfl⟩
      · split at hgiven <;> exact absurd hgiven (by simp)

/-- A line is cut into its beginning, with a token of use, and groups behind it, each with a token
at its beginning. -/
structure IsCut (body first : List Char) (later : List Group) : Prop where
  joined : first ++ later.flatMap Group.part = body
  used : ∃ t ∈ (lexLine 2 false body).1.filterMap Lexeme.token?,
    Tokenized.isContent t = true ∧ t.column ≤ first.length
  begins : Begin (BeginsAt (lexLine 2 false body).1) (first.length + 1) later

/-- No token of a line stands in front of its first character that separates no pieces. -/
theorem startColumn_le {cs : List Char} {t : Token}
    (h : Lexeme.token t ∈ (lexLine line false cs).1) :
    startColumn cs ≤ t.column := by
  cases hstart : cs.dropWhile isBlank with
  | nil =>
    rw [lexLine_of_blank hstart] at h
    exact absurd h List.not_mem_nil
  | cons c tail =>
    by_cases hstar : c = '*'
    · rw [lexLine_of_start hstart, if_pos (by simp [hstar])] at h
      rw [Lexeme.token.inj (List.mem_singleton.1 h)]
    · rw [lexLine_behind_title hstart hstar] at h
      split at h
      · rcases List.mem_cons.1 h with heq | hmem
        · rw [Lexeme.token.inj heq]
        · exact (Nat.le_succ _).trans (column_of_mem_lexPieces hmem).1
      · exact (column_of_mem_lexPieces h).1

/-- The beginning of a cut line begins as the line does. -/
theorem exists_start {body first behind : List Char} {t : Token} (hjoined : first ++ behind = body)
    (ht : Lexeme.token t ∈ (lexLine line false body).1) (hbefore : t.column ≤ first.length) :
    ∃ c front, first.dropWhile isBlank = c :: front ∧
      body.dropWhile isBlank = c :: (front ++ behind) ∧ startColumn first = startColumn body ∧
      startColumn body + (c :: front).length = first.length + 1 := by
  have hle := (startColumn_le ht).trans hbefore
  subst hjoined
  unfold startColumn at hle ⊢
  rw [List.dropWhile_append] at hle ⊢
  have hshort := List.length_dropWhile_le isBlank behind
  have hshort' := List.length_dropWhile_le isBlank first
  cases hstart : first.dropWhile isBlank with
  | nil =>
    rw [hstart, List.isEmpty_nil, if_pos rfl, List.length_append] at hle
    omega
  | cons c front =>
    rw [hstart] at hshort'
    rw [List.isEmpty_cons, if_neg (by simp), List.length_append, List.length_append]
    exact ⟨c, front, rfl, rfl, by omega, by omega⟩

/-- No line that a line is cut into reaches over its end. -/
theorem IsCut.not_mem_newline {body first : List Char} {later : List Group}
    (h : IsCut body first later) (hbody : '\n' ∉ body) :
    ∀ l ∈ first :: later.flatMap Group.lines, '\n' ∉ l := by
  rw [← h.joined] at hbody
  refine List.forall_mem_cons.2 ⟨fun hmem => hbody (List.mem_append_left _ hmem), fun l hl => ?_⟩
  obtain ⟨g, hg, hl⟩ := List.mem_flatMap.1 hl
  rcases List.mem_append.1 hl with hskipped | hown
  · exact (g.idle l hskipped).1
  · rw [List.mem_singleton.1 hown]
    intro hmem
    have htext : '\n' ∈ g.text := by simpa using hmem
    exact hbody (List.mem_append_right _
      (List.mem_flatMap.2 ⟨g, hg, List.mem_append_right _ htext⟩))

/-- The beginning of a cut line and the groups behind it say what the line says, and the beginning
continues a line if the whole line does. -/
theorem lexLine_groups {body first : List Char} {later : List Group}
    (hcut : IsCut body first later) (hclean : Clean (lexLine 2 false body).1) :
    Clean (lexLine 2 false first).1 ∧ (∀ g ∈ later, g.Sound) ∧
      said (lexLine 2 false first).1 ≠ [] ∧
      said (lexLine 2 false body).1 = said (lexLine 2 false first).1 ++
        later.flatMap (fun g => said (lexPieces 1 1 false g.text)) ∧
      ((lexLine 2 false first).1.filterMap Lexeme.token?).any Tokenized.isPlus =
        ((lexLine 2 false body).1.filterMap Lexeme.token?).any Tokenized.isPlus := by
  obtain ⟨hjoined, ⟨t, ht, hcontent, hbefore⟩, hbegins⟩ := hcut
  rw [mem_tokens_iff] at ht
  obtain ⟨c, front, hstart, hstart', hcolumn, hend⟩ := exists_start hjoined ht hbefore
  have hstar : c ≠ '*' := by
    rintro rfl
    rw [lexLine_of_start hstart', if_pos (by decide)] at ht
    obtain rfl := Lexeme.token.inj (List.mem_singleton.1 ht)
    exact absurd hcontent (by simp [Tokenized.isContent])
  rw [lexLine_behind_title hstart' hstar] at hclean ht hbegins ⊢
  rw [lexLine_behind_title hstart hstar, hcolumn]
  by_cases hplus : c = '+'
  · rw [if_pos hplus] at hclean ht hbegins ⊢
    rw [if_pos hplus]
    dsimp only at hclean ht hbegins ⊢
    obtain ⟨-, hclean'⟩ := List.forall_mem_cons.1 hclean
    have ht' : Lexeme.token t ∈ lexPieces 2 (startColumn body + 1) true
        (front ++ later.flatMap Group.part) := by
      rcases List.mem_cons.1 ht with heq | hmem
      · rw [Lexeme.token.inj heq] at hcontent
        exact absurd hcontent (by simp [Tokenized.isContent])
      · exact hmem
    have hend' : startColumn body + 1 + front.length = first.length + 1 := by
      rw [← hend, List.length_cons]
      omega
    have hbegins' := hbegins.imp fun k hk hbegin =>
      BeginsAt.right (l := [.token ⟨.plus, "+", 2, startColumn body⟩]) hbegin fun u hu => by
        rw [Lexeme.token.inj (List.mem_singleton.1 hu)]
        dsimp only
        omega
    rw [← hend'] at hbegins'
    obtain ⟨hfront, hsound, hsome, hsaid⟩ :=
      said_lexPieces_groups_of_token hclean' hbegins' ht' hcontent (by omega)
    refine ⟨List.forall_mem_cons.2 ⟨rfl, hfront⟩, hsound, ?_, ?_, rfl⟩
    · rw [said_cons]
      exact hsome
    · rw [said_cons, said_cons, hsaid]
      rfl
  · rw [if_neg hplus] at hclean ht hbegins ⊢
    rw [if_neg hplus]
    dsimp only at hclean ht hbegins ⊢
    rw [← hend] at hbegins
    rw [any_isPlus_lexPieces, any_isPlus_lexPieces]
    obtain ⟨hfront, hsound, hsome, hsaid⟩ :=
      said_lexPieces_groups_of_token (p := c :: front) hclean hbegins ht hcontent (by omega)
    exact ⟨hfront, hsound, hsome, hsaid, rfl⟩

end Lexer

namespace Tokenized

open Lexer

variable {g : Gathering} {last : List Token} {earlier : List (List Token)}

/-- What the logical lines say. -/
def saidLines (t : Tokenized) : List (List (TokenKind × String)) := t.lines.map (·.map Token.said)

/-- Lines are cut into pieces from the first one on. -/
theorem lexLines_cons (line : Nat) (cs : List Char) (rest : List (List Char)) :
    lexLines line false (cs :: rest) =
      (lexLine line false cs).1 :: lexLines (line + 1) false rest := by
  have hpending : (lexLine line false cs).2 = false :=
    (piece_lexLine line 1 false cs).2.trans (pendingBehind_false [cs])
  rw [lexLines]
  dsimp only
  rw [hpending]

/-- The tokens of lines are those of the first one and then those of the others. -/
theorem rows_cons (line : Nat) (cs : List Char) (rest : List (List Char)) :
    rows line false (cs :: rest) =
      (lexLine line false cs).1.filterMap Lexeme.token? :: rows (line + 1) false rest := by
  unfold rows
  rw [lexLines_cons, List.map_cons]

/-- The tokens of lines in two parts are those of each part, with the numbers going on. -/
theorem rows_append (line : Nat) (lines lines' : List (List Char)) :
    rows line false (lines ++ lines') =
      rows line false lines ++ rows (line + lines.length) false lines' := by
  unfold rows
  rw [lexLines_append, pendingBehind_false, List.map_append]

/-- Lines of no tokens but comments leave the logical lines alone. -/
theorem foldl_gather_idle (hg : g.lines = last :: earlier) (line : Nat)
    {lines : List (List Char)} (h : ∀ l ∈ lines, IsIdle l) :
    (rows line false lines).foldl gather g = g := by
  induction lines generalizing line with
  | nil => rfl
  | cons l rest ih =>
    obtain ⟨hl, hrest⟩ := List.forall_mem_cons.1 h
    obtain ⟨-, hcontent, hplus⟩ := @lexLine_of_idle line l hl
    rw [rows_cons, List.foldl_cons, gather_of_not_plus hg hplus, if_pos hcontent, ← hg]
    exact ih (line + 1) hrest

/-- Groups on lines of their own make the last logical line longer by what they say. -/
theorem foldl_gather_groups (hg : g.lines = last :: earlier) (line : Nat) (later : List Group) :
    ∃ more, (rows line false (later.flatMap Group.lines)).foldl gather g =
        ⟨(last ++ more) :: earlier, g.strays⟩ ∧
      more.map Token.said =
        later.flatMap fun group => said (lexPieces 1 1 true group.text) := by
  induction later generalizing g last line with
  | nil =>
    refine ⟨[], ?_, rfl⟩
    rw [List.append_nil, ← hg]
    rfl
  | cons group rest ih =>
    rw [List.flatMap_cons, Group.lines, List.append_assoc, rows_append, List.foldl_append,
      foldl_gather_idle hg line group.idle, List.singleton_append, rows_cons, List.foldl_cons,
      lexLine_of_continued, gather_of_plus hg rfl]
    obtain ⟨more, hfold, hsaid⟩ := ih (g := ⟨_, g.strays⟩) rfl (line + group.skipped.length + 1)
    rw [hfold]
    refine ⟨_, by rw [List.append_assoc], ?_⟩
    rw [List.map_append, hsaid, List.flatMap_cons, ← said_congr (piece_lexPieces _ 3 1 1 true _)]
    rfl

/-- The lines of groups are clean if their texts are. -/
theorem clean_groups {later : List Group}
    (h : ∀ group ∈ later, Clean (lexPieces 1 1 true group.text)) (line : Nat) :
    ∀ row ∈ lexLines line false (later.flatMap Group.lines), Clean row := by
  have hidle : ∀ (line : Nat) {lines : List (List Char)}, (∀ l ∈ lines, IsIdle l) →
      ∀ row ∈ lexLines line false lines, Clean row := by
    intro line lines hlines
    induction lines generalizing line with
    | nil => exact List.forall_mem_nil _
    | cons l rest ih =>
      obtain ⟨hl, hrest⟩ := List.forall_mem_cons.1 hlines
      rw [lexLines_cons]
      exact List.forall_mem_cons.2 ⟨(lexLine_of_idle hl).1, ih (line + 1) hrest⟩
  induction later generalizing line with
  | nil => exact List.forall_mem_nil _
  | cons group rest ih =>
    obtain ⟨hgroup, hrest⟩ := List.forall_mem_cons.1 h
    rw [List.flatMap_cons, Group.lines, List.append_assoc, lexLines_append, pendingBehind_false,
      List.singleton_append, lexLines_cons, lexLine_of_continued]
    refine List.forall_mem_append.2 ⟨hidle line group.idle, List.forall_mem_cons.2 ⟨?_, ih hrest _⟩⟩
    exact List.forall_mem_cons.2
      ⟨rfl, clean_congr (piece_lexPieces 1 1 _ 3 true group.text) hgroup⟩

/-- The groups say the same on lines of their own exactly if none of them begins like a command. -/
theorem flatMap_said_iff {later : List Group} (h : ∀ group ∈ later, group.Sound) :
    (later.flatMap fun group => said (lexPieces 1 1 true group.text)) =
        (later.flatMap fun group => said (lexPieces 1 1 false group.text)) ↔
      ∀ group ∈ later, beginsCommand group.text = false := by
  induction later with
  | nil => exact iff_of_true rfl (List.forall_mem_nil _)
  | cons group rest ih =>
    obtain ⟨hgroup, hrest⟩ := List.forall_mem_cons.1 h
    rw [List.flatMap_cons, List.flatMap_cons, List.forall_mem_cons]
    cases hcommand : beginsCommand group.text with
    | false =>
      rw [lexPieces_first hgroup.2 hcommand, List.append_right_inj, ih hrest]
      exact (and_iff_right rfl).symm
    | true =>
      obtain ⟨⟨name, more, htrue⟩, name', more', hfalse⟩ :=
        @said_of_beginsCommand 1 1 group.text hcommand
      rw [htrue, hfalse]
      exact iff_of_false (by simp) (by simp)

/-! ## Texts of a title and a line -/

variable {title body first : List Char} {later : List Group}

/-- Behind its title a text is gathered row by row. -/
theorem tokenize_behind_title {t : Token} (htitle : IsTitle title)
    (ht : lexLine 1 true title = ([.token t], false)) (hcontent : isContent t = true)
    (hplus : isPlus t = false) {rest : List (List Char)} (hrest : ∀ l ∈ rest, '\n' ∉ l) :
    (tokenize (Text.unlines (title :: rest))).lines =
        ((rows 2 false rest).foldl gather ⟨[[t]], []⟩).lines.reverse ∧
      (tokenize (Text.unlines (title :: rest))).faults =
        (lexLines 2 false rest).flatten.filterMap Lexeme.fault? ++
          ((rows 2 false rest).foldl gather ⟨[[t]], []⟩).strays.map strayFault := by
  have htext : lexText (Text.unlines (title :: rest)).toList =
      [.token t] :: lexLines 2 false rest := by
    unfold lexText
    rw [Text.splitLines_unlines (List.cons_ne_nil _ _)
      (List.forall_mem_cons.2 ⟨htitle.single, hrest⟩), lexLines, ht]
  have hfirst : gather ⟨[], []⟩ [t] = ⟨[[t]], []⟩ := by
    unfold gather
    simp [hcontent, hplus]
  have hrows : ([.token t] :: lexLines 2 false rest).map (·.filterMap Lexeme.token?) =
      [t] :: rows 2 false rest := rfl
  unfold tokenize ofPieces
  rw [htext, hrows, List.foldl_cons, hfirst]
  exact ⟨rfl, rfl⟩

/-- Behind the title, tokens of use make the title's line longer or a line of their own. -/
theorem gather_behind_title (t : Token) {tokens : List Token}
    (h : tokens.filter isContent ≠ []) :
    gather ⟨[[t]], []⟩ tokens =
      ⟨((if tokens.any isPlus then [t] else []) ++ tokens.filter isContent) ::
        (if tokens.any isPlus then [] else [[t]]), []⟩ := by
  cases hplus : tokens.any isPlus with
  | true => exact gather_of_plus rfl hplus
  | false =>
    rw [gather_of_not_plus rfl hplus, if_neg h]
    rfl

/-- The groups, each on a line of its own, say what the whole line says, and without faults. -/
def Transparent (title body first : List Char) (later : List Group) : Prop :=
  (tokenize (Text.unlines (title :: first :: later.flatMap Group.lines))).saidLines =
      (tokenize (Text.unlines [title, body])).saidLines ∧
    (tokenize (Text.unlines (title :: first :: later.flatMap Group.lines))).faults = []

/-- The tokens of use of a line that says something. -/
theorem content_ne_nil_of_said {l : List Lexeme} (h : said l ≠ []) :
    (l.filterMap Lexeme.token?).filter isContent ≠ [] := by
  intro hnil
  refine h ?_
  unfold said
  rw [hnil]
  rfl

/-- A cut line is gathered like the whole line, as far as the groups say the same. -/
theorem exists_foldl_gather_cut (t : Token) (hfirst : said (lexLine 2 false first).1 ≠ [])
    (hbody : said (lexLine 2 false body).1 ≠ [])
    (hplus : ((lexLine 2 false first).1.filterMap Lexeme.token?).any isPlus =
      ((lexLine 2 false body).1.filterMap Lexeme.token?).any isPlus) (later : List Group) :
    ∃ front more behind,
      (rows 2 false [body]).foldl gather ⟨[[t]], []⟩ =
        ⟨(front ++ ((lexLine 2 false body).1.filterMap Lexeme.token?).filter isContent) :: behind,
          []⟩ ∧
      (rows 2 false (first :: later.flatMap Group.lines)).foldl gather ⟨[[t]], []⟩ =
        ⟨(front ++ ((lexLine 2 false first).1.filterMap Lexeme.token?).filter isContent ++ more) ::
          behind, []⟩ ∧
      more.map Token.said = later.flatMap fun g => said (lexPieces 1 1 true g.text) := by
  have hwhole := gather_behind_title t (content_ne_nil_of_said hbody)
  have hcut := gather_behind_title t (content_ne_nil_of_said hfirst)
  rw [hplus] at hcut
  obtain ⟨more, hfold, hmore⟩ := foldl_gather_groups (congrArg Gathering.lines hcut) 3 later
  rw [hcut] at hfold
  generalize ((lexLine 2 false body).1.filterMap Lexeme.token?).any isPlus = plus
    at hwhole hcut hfold
  refine ⟨if plus then [t] else [], more, if plus then [] else [[t]], ?_, ?_, hmore⟩
  · rw [rows_cons, List.foldl_cons]
    exact hwhole
  · rw [rows_cons, List.foldl_cons, hcut]
    exact hfold

/-- There are no faults exactly if every line is clean. -/
theorem faults_eq_nil_iff {pieces : List (List Lexeme)} :
    pieces.flatten.filterMap Lexeme.fault? = [] ↔ ∀ row ∈ pieces, Clean row := by
  rw [List.filterMap_eq_nil_iff, List.forall_mem_flatten]
  rfl

/-- Continued lines are transparent but for paths that are taken for commands: writing groups of
the tokens of a line on lines of their own changes nothing exactly if no group begins with a point
and a letter. -/
theorem transparent_iff (htitle : IsTitle title) (hbody : '\n' ∉ body)
    (hclean : (tokenize (Text.unlines [title, body])).faults = [])
    (hcut : IsCut body first later) :
    Transparent title body first later ↔ ∀ g ∈ later, beginsCommand g.text = false := by
  obtain ⟨t, ht, hcontent, hplus⟩ := htitle.exists_token
  have hline : ∀ l ∈ [body], '\n' ∉ l := List.forall_mem_singleton.2 hbody
  obtain ⟨hwhole, hfaults⟩ := tokenize_behind_title htitle ht hcontent hplus hline
  obtain ⟨hparts, hfaults'⟩ := tokenize_behind_title htitle ht hcontent hplus
    (hcut.not_mem_newline hbody)
  rw [hfaults, List.append_eq_nil_iff, faults_eq_nil_iff, lexLines_cons] at hclean
  obtain ⟨hfirst, hsound, hne, hsaid, hsame⟩ :=
    lexLine_groups hcut (List.forall_mem_cons.1 hclean.1).1
  have hne' : said (lexLine 2 false body).1 ≠ [] := by
    rw [hsaid]
    exact List.append_ne_nil_of_left_ne_nil hne _
  obtain ⟨front, more, behind, hgather, hgather', hmore⟩ :=
    exists_foldl_gather_cut t hne hne' hsame later
  have hlines : (tokenize (Text.unlines (title :: first :: later.flatMap Group.lines))).saidLines =
      (tokenize (Text.unlines [title, body])).saidLines ↔
        more.map Token.said = later.flatMap fun g => said (lexPieces 1 1 false g.text) := by
    unfold saidLines
    rw [hparts, hwhole, hgather, hgather']
    dsimp only
    rw [List.reverse_cons, List.reverse_cons, List.map_append, List.map_append,
      List.append_right_inj, List.map_singleton, List.map_singleton, List.singleton_inj,
      List.append_assoc, List.map_append, List.map_append, List.map_append, List.append_right_inj]
    change said _ ++ _ = said _ ↔ _
    rw [hsaid, List.append_right_inj]
  have hquiet : (∀ g ∈ later, beginsCommand g.text = false) →
      (tokenize (Text.unlines (title :: first :: later.flatMap Group.lines))).faults = [] := by
    intro hcommand
    have hgroups : ∀ g ∈ later, Clean (lexPieces 1 1 true g.text) := by
      intro g hg
      rw [lexPieces_first (hsound g hg).2 (hcommand g hg)]
      exact (hsound g hg).1
    rw [hfaults', hgather', List.map_nil, List.append_nil, faults_eq_nil_iff, lexLines_cons]
    exact List.forall_mem_cons.2 ⟨hfirst, clean_groups hgroups 3⟩
  unfold Transparent
  rw [hlines, hmore, flatMap_said_iff hsound]
  exact and_iff_left_of_imp hquiet

/-- The nodes and the value of a resistor on lines of their own, the nodes behind a comment and a
blank line. -/
def resistorGroups : List Group :=
  [⟨[' '], "a b ".toList, ["* nodes".toList, []], List.forall_mem_singleton.2 rfl,
      by decide +kernel⟩,
    ⟨[], "1k ; value".toList, [], List.forall_mem_nil _, List.forall_mem_nil _⟩]

/-- A resistor is the same on one line and on three. -/
theorem transparent_resistor :
    Transparent "t".toList "R1 a b 1k ; value".toList "R1".toList resistorGroups :=
  (transparent_iff ⟨by decide +kernel, by decide +kernel⟩ (by decide +kernel) (by decide +kernel)
    ⟨by decide +kernel, by decide +kernel, by decide +kernel⟩).2 (by decide +kernel)

/-- The second of two library files on a line of its own. -/
def libraryGroup : Group :=
  ⟨[' '], ".b.lib".toList, [], List.forall_mem_singleton.2 rfl, List.forall_mem_nil _⟩

/-- A path that begins with a point and a letter is a command on a line of its own. -/
theorem not_transparent_library :
    IsTitle "t".toList ∧ '\n' ∉ ".lib a.lib .b.lib".toList ∧
      (tokenize (Text.unlines ["t".toList, ".lib a.lib .b.lib".toList])).faults = [] ∧
      IsCut ".lib a.lib .b.lib".toList ".lib a.lib".toList [libraryGroup] ∧
      ¬Transparent "t".toList ".lib a.lib .b.lib".toList ".lib a.lib".toList [libraryGroup] := by
  refine ⟨⟨by decide +kernel, by decide +kernel⟩, by decide +kernel, by decide +kernel,
    ⟨by decide +kernel, by decide +kernel, by decide +kernel⟩, fun h => ?_⟩
  have htexts := congrArg (List.map (List.map Prod.snd)) h.1
  exact absurd htexts (by decide +kernel)

end Tokenized

end FlatNet
