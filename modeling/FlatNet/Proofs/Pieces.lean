import FlatNet.Proofs.Token

/-!
# Pieces of lines, wherever they stand

What a line is cut into does not depend on its number or on the column it begins at, so two lines
of the same characters give the same kinds, texts and problems.  Lines that follow other lines are
cut like lines of their own, except that the title is no longer to come once there is a logical
line.
-/

set_option autoImplicit false

namespace FlatNet

/-- What a lexeme is, wherever it stands. -/
def Lexeme.piece : Lexeme → Piece
  | token t => .token t.kind t.text
  | fault f => .fault f.problem 0

/-- The problem if the piece is faulty. -/
def Piece.problem? : Piece → Option Problem
  | token _ _ => none
  | fault problem _ => some problem

namespace Text

/-- The lines of two texts with a newline between them are those of the first and those of the
second text. -/
theorem splitLines_append (cs ds : List Char) :
    splitLines (cs ++ '\n' :: ds) = splitLines cs ++ splitLines ds := by
  induction cs with
  | nil => rfl
  | cons c rest ih =>
    by_cases hc : c = '\n'
    · simp only [List.cons_append, splitLines, hc, if_true, ih]
    · simp only [List.cons_append, splitLines, hc, if_false, ih]
      cases hrest : splitLines rest with
      | nil => exact absurd hrest (splitLines_ne_nil rest)
      | cons line lines => rfl

/-- A text without newlines is one line. -/
theorem splitLines_of_not_mem {cs : List Char} (h : '\n' ∉ cs) : splitLines cs = [cs] := by
  induction cs with
  | nil => rfl
  | cons c rest ih =>
    have hc : c ≠ '\n' := fun heq => h (List.mem_cons.2 (.inl heq.symm))
    have hrest : '\n' ∉ rest := fun hmem => h (List.mem_cons_of_mem c hmem)
    rw [splitLines, if_neg hc, ih hrest]
    rfl

end Text

namespace Lexer

open Text (isAlphabetic isWhiteSpace trim)

variable {cs : List Char} {first pending : Bool} {line column : Nat}

/-! ## Places do not matter -/

/-- What a piece is does not depend on its place. -/
theorem piece_place (p : Piece) (line column line' column' : Nat) :
    (Piece.place line column p).piece = (Piece.place line' column' p).piece := by
  cases p <;> rfl

/-- What a line is cut into does not depend on where the line stands. -/
theorem piece_lexPieces (line column line' column' : Nat) (first : Bool) (cs : List Char) :
    (lexPieces line column first cs).map Lexeme.piece =
      (lexPieces line' column' first cs).map Lexeme.piece := by
  induction column, first, cs using lexPieces.induct generalizing column' with
  | case1 column first =>
    rw [lexPieces, lexPieces]
  | case2 column first c tail hblank ih =>
    rw [lexPieces, if_pos hblank, lexPieces, if_pos hblank]
    exact ih _
  | case3 column first c tail hblank taken ih =>
    rw [lexPieces, if_neg hblank, lexPieces, if_neg hblank]
    dsimp only
    rw [List.map_cons, List.map_cons, piece_place _ line column line' column', ih]

/-- What a line is cut into does not depend on its number. -/
theorem piece_lexLine (line line' : Nat) (pending : Bool) (cs : List Char) :
    (lexLine line pending cs).1.map Lexeme.piece = (lexLine line' pending cs).1.map Lexeme.piece ∧
      (lexLine line pending cs).2 = (lexLine line' pending cs).2 := by
  unfold lexLine
  dsimp only
  split
  · exact ⟨rfl, rfl⟩
  · split
    · exact ⟨rfl, rfl⟩
    · split
      · exact ⟨rfl, rfl⟩
      · split
        · refine ⟨?_, rfl⟩
          rw [List.map_cons, List.map_cons, piece_lexPieces line _ line' _]
          rfl
        · exact ⟨piece_lexPieces _ _ _ _ _ _, rfl⟩

/-! ## Lines behind lines -/

/-- Whether the title is to come behind some lines. -/
def pendingBehind (pending : Bool) (lines : List (List Char)) : Bool :=
  lines.foldl (fun pending cs => (lexLine 1 pending cs).2) pending

/-- Lines are cut one after another. -/
theorem lexLines_append (line : Nat) (pending : Bool) (lines lines' : List (List Char)) :
    lexLines line pending (lines ++ lines') = lexLines line pending lines ++
      lexLines (line + lines.length) (pendingBehind pending lines) lines' := by
  induction lines generalizing line pending with
  | nil => rfl
  | cons cs rest ih =>
    have hnumber : line + 1 + rest.length = line + (cs :: rest).length := by
      rw [List.length_cons]
      omega
    unfold pendingBehind
    rw [List.cons_append, lexLines, lexLines, List.foldl_cons, ← (piece_lexLine line 1 _ _).2]
    dsimp only
    rw [ih, hnumber]
    rfl

/-- What lines are cut into does not depend on their numbers. -/
theorem piece_lexLines (line line' : Nat) (pending : Bool) (lines : List (List Char)) :
    (lexLines line pending lines).map (·.map Lexeme.piece) =
      (lexLines line' pending lines).map (·.map Lexeme.piece) := by
  induction lines generalizing line line' pending with
  | nil => rfl
  | cons cs rest ih =>
    obtain ⟨hpieces, hpending⟩ := piece_lexLine line line' pending cs
    rw [lexLines, lexLines]
    dsimp only
    rw [List.map_cons, List.map_cons, hpieces, hpending, ih]

/-- Behind the title no further one is to come. -/
theorem pendingBehind_false (lines : List (List Char)) : pendingBehind false lines = false := by
  have hline : ∀ cs : List Char, (lexLine 1 false cs).2 = false := by
    intro cs
    unfold lexLine
    dsimp only
    split
    · rfl
    · split
      · rfl
      · split
        · rfl
        · split <;> rfl
  induction lines with
  | nil => rfl
  | cons cs rest ih =>
    unfold pendingBehind
    rw [List.foldl_cons, hline]
    exact ih

/-! ## The title comes first -/

/-- The code points of white space outside ASCII. -/
def whiteSpaceCodes : List Nat :=
  Text.whiteSpaceRanges.flatMap fun range => List.range' range.1 (range.2 + 1 - range.1)

/-- The character is no printing one of ASCII. -/
def Outside (c : Char) : Prop := c.toNat < 33 ∨ 128 ≤ c.toNat

/-- A character that is no printing one of ASCII differs from all of those. -/
theorem Outside.ne {c : Char} (h : Outside c) {d : Char} (hd : 33 ≤ d.toNat ∧ d.toNat < 128) :
    c ≠ d := by
  rintro rfl
  rcases h with h | h <;> omega

/-- A character that is no printing one of ASCII is no digit. -/
theorem Outside.isDigit {c : Char} (h : Outside c) : c.isDigit = false := by
  by_contra hdigit
  rw [Bool.not_eq_false] at hdigit
  have hcode := Expr.Token.code_of_isDigit hdigit
  rcases h with h | h <;> omega

/-- White space is neither a letter nor a printing character of ASCII. -/
theorem outside_of_isWhiteSpace {c : Char} (h : isWhiteSpace c = true) :
    isAlphabetic c = false ∧ Outside c := by
  have hcodes : ∀ n ∈ whiteSpaceCodes, Text.inRanges Text.alphabeticRanges n = false := by
    decide +kernel
  unfold isWhiteSpace at h
  split at h
  · rename_i hascii
    have hsmall : c.toNat < 33 := by
      rcases Bool.or_eq_true_iff.1 h with hspace | hcontrol
      · rw [eq_of_beq hspace]
        decide
      · have := of_decide_eq_true hcontrol
        omega
    refine ⟨?_, .inl hsmall⟩
    rw [Text.isAlphabetic_of_isAscii hascii]
    by_contra hletter
    rw [Bool.not_eq_false] at hletter
    have hcode := Expr.Token.code_of_isAlpha hletter
    omega
  · rename_i hascii
    obtain ⟨range, hrange, hbounds⟩ := List.any_eq_true.1 h
    have hmem : c.toNat ∈ whiteSpaceCodes := by
      have := of_decide_eq_true hbounds
      exact List.mem_flatMap.2 ⟨range, hrange, List.mem_range'_1.2 (by omega)⟩
    refine ⟨?_, .inr ?_⟩
    · unfold isAlphabetic
      rw [if_neg hascii]
      exact hcodes _ hmem
    · by_contra hlt
      exact hascii (decide_eq_true (by show c.toNat < 128; omega))

/-- A white character that separates no pieces is illegal. -/
theorem readPiece_of_isWhiteSpace {c : Char} (h : isWhiteSpace c = true) (tail : List Char) :
    readPiece first c tail = ⟨.fault (.illegalCharacter c) 0, tail⟩ := by
  obtain ⟨hletter, houtside⟩ := outside_of_isWhiteSpace h
  have hword : startsWord c = false := by
    simp [startsWord, hletter, houtside.ne (d := '_') (by decide)]
  have hpath : startsPath c = false := by
    simp [startsPath, houtside.ne (d := '.') (by decide), houtside.ne (d := '/') (by decide),
      houtside.ne (d := '\\') (by decide), houtside.ne (d := '~') (by decide)]
  have hnumber : readNumber? (c :: tail) = none :=
    readNumber?_eq_none houtside.isDigit (houtside.ne (by decide)) (houtside.ne (by decide))
      (houtside.ne (by decide))
  exact PieceRead.eq (.illegal (houtside.ne (by decide)) (houtside.ne (by decide))
    (houtside.ne (by decide)) hnumber hword hpath)

/-- White space gives no tokens. -/
theorem tokens_of_isWhiteSpace (line column : Nat) (first : Bool) (cs : List Char)
    (h : ∀ c ∈ cs, isWhiteSpace c = true) :
    (lexPieces line column first cs).filterMap Lexeme.token? = [] := by
  induction column, first, cs using lexPieces.induct with
  | case1 column first => rw [lexPieces, List.filterMap_nil]
  | case2 column first c tail hblank ih =>
    rw [lexPieces, if_pos hblank]
    exact ih fun d hd => h d (List.mem_cons_of_mem c hd)
  | case3 column first c tail hblank taken ih =>
    have hfault : taken = ⟨.fault (.illegalCharacter c) 0, tail⟩ :=
      readPiece_of_isWhiteSpace (h c List.mem_cons_self) tail
    rw [hfault] at ih
    rw [lexPieces, if_neg hblank]
    dsimp only
    rw [readPiece_of_isWhiteSpace (h c List.mem_cons_self) tail]
    exact ih fun d hd => h d (List.mem_cons_of_mem c hd)

/-- Where nothing is left by trimming, all is white space. -/
theorem eq_nil_of_trim {cs : List Char} (h : trim cs = []) : ∀ c ∈ cs, isWhiteSpace c = true := by
  have hfront : cs.dropWhile isWhiteSpace = [] := by
    have hback := List.dropWhile_eq_nil_iff.1 (List.reverse_eq_nil_iff.1 h)
    cases hcs : cs.dropWhile isWhiteSpace with
    | nil => rfl
    | cons c rest =>
      have hc : isWhiteSpace c = true := hback c (by rw [hcs]; simp)
      have hstops := List.head?_dropWhile_not isWhiteSpace cs
      rw [hcs] at hstops
      simp [hc] at hstops
  exact List.dropWhile_eq_nil_iff.1 hfront

/-- The column of the first character of a line that separates no pieces. -/
def startColumn (cs : List Char) : Nat := cs.length - (cs.dropWhile isBlank).length + 1

/-- What a line is cut into is decided by its first character that separates no pieces. -/
theorem lexLine_of_start {c : Char} {tail : List Char} (hstart : cs.dropWhile isBlank = c :: tail) :
    lexLine line pending cs =
      if c == '*' then
        ([.token ⟨.comment, String.ofList (c :: tail), line, startColumn cs⟩], pending)
      else if pending && !(trim (c :: tail)).isEmpty && c != ';' then
        ([.token ⟨.quotedString, String.ofList (titleOf (c :: tail)), line, startColumn cs⟩], false)
      else if c == '+' then
        (.token ⟨.plus, "+", line, startColumn cs⟩ ::
          lexPieces line (startColumn cs + 1) true tail, pending)
      else (lexPieces line (startColumn cs) true (c :: tail), pending) := by
  unfold lexLine startColumn
  rw [hstart]

/-- A blank line gives nothing, and the title is to come as before. -/
theorem lexLine_of_blank (hstart : cs.dropWhile isBlank = []) :
    lexLine line pending cs = ([], pending) := by
  unfold lexLine
  rw [hstart]

/-- A line is cut into what its first piece is and what stands behind that piece. -/
theorem lexPieces_of_readPiece (line column : Nat) {c : Char} {tail rest : List Char} {p : Piece}
    (hblank : ¬isBlank c = true) (hread : readPiece first c tail = ⟨p, rest⟩) :
    lexPieces line column first (c :: tail) = Piece.place line column p ::
      lexPieces line (column + ((c :: tail).length - rest.length)) false rest := by
  rw [lexPieces, if_neg hblank]
  dsimp only
  rw [hread]

/-- A comment behind a semicolon reaches to the end of its line. -/
theorem lexPieces_semicolon (line column : Nat) (first : Bool) (tail : List Char) :
    lexPieces line column first (';' :: tail) =
      [.token ⟨.comment, String.ofList (';' :: tail), line, column⟩] := by
  have hpiece : readPiece first ';' tail =
      ⟨.token .comment (String.ofList (';' :: tail)), []⟩ := rfl
  rw [lexPieces_of_readPiece line column (by decide) hpiece, lexPieces]
  rfl

/-- A line behind which the title is still to come has no tokens but comments. -/
theorem content_of_pending (h : (lexLine line true cs).2 = true) :
    ((lexLine line true cs).1.filterMap Lexeme.token?).filter Tokenized.isContent = [] := by
  cases hstart : cs.dropWhile isBlank with
  | nil =>
    rw [lexLine_of_blank hstart]
    rfl
  | cons c tail =>
    rw [lexLine_of_start hstart] at h ⊢
    by_cases hstar : (c == '*') = true
    · rw [if_pos hstar]
      rfl
    · rw [if_neg hstar] at h ⊢
      split at h
      · exact absurd h (by simp)
      · rename_i htitle
        rw [if_neg htitle]
        by_cases hsemicolon : c = ';'
        · subst hsemicolon
          rw [if_neg (by decide), lexPieces_semicolon]
          rfl
        · have hwhite : trim (c :: tail) = [] := by
            simpa [hsemicolon, List.isEmpty_iff] using htitle
          have hall := eq_nil_of_trim hwhite
          have hplus : (c == '+') = false := beq_eq_false_iff_ne.2
            ((outside_of_isWhiteSpace (hall c List.mem_cons_self)).2.ne (by decide))
          rw [hplus, if_neg (by simp)]
          dsimp only
          rw [tokens_of_isWhiteSpace _ _ _ _ hall]
          rfl

end Lexer

namespace Tokenized

open Lexer

variable {lines : List (List Char)} {g : Gathering}

/-- The tokens of numbered lines. -/
def rows (line : Nat) (pending : Bool) (lines : List (List Char)) : List (List Token) :=
  (lexLines line pending lines).map (·.filterMap Lexeme.token?)

/-- Tokens that are of no use leave the logical lines alone. -/
theorem gather_of_content (tokens : List Token) (h : tokens.filter isContent = []) :
    (gather g tokens).lines = g.lines := by
  unfold gather
  dsimp only
  rw [h]

/-- There is no logical line before the title. -/
theorem lines_of_pending (line : Nat) (hg : g.lines = [])
    (h : pendingBehind true lines = true) : ((rows line true lines).foldl gather g).lines = [] := by
  induction lines generalizing line g with
  | nil => exact hg
  | cons cs rest ih =>
    have hsame := (piece_lexLine line 1 true cs).2
    unfold pendingBehind at h
    rw [List.foldl_cons, ← hsame] at h
    cases hpending : (lexLine line true cs).2 with
    | false =>
      rw [hpending] at h
      change pendingBehind false rest = true at h
      rw [pendingBehind_false] at h
      exact absurd h (by simp)
    | true =>
      have hfirst := gather_of_content (g := g) _ (content_of_pending hpending)
      rw [hpending] at h
      unfold rows
      rw [lexLines]
      dsimp only
      rw [hpending, List.map_cons, List.foldl_cons]
      exact ih (line + 1) (hfirst.trans hg) h

/-- Behind a text with a logical line the title is no longer to come. -/
theorem pendingBehind_of_lines {text : String} (h : (tokenize text).lines ≠ []) :
    pendingBehind true (Text.splitLines text.toList) = false := by
  by_contra hpending
  rw [Bool.not_eq_false] at hpending
  refine h ?_
  show ((rows 1 true (Text.splitLines text.toList)).foldl gather ⟨[], []⟩).lines.reverse = []
  rw [lines_of_pending 1 rfl hpending]
  rfl

/-! ## Texts behind texts -/

section Behind

variable {last : List Token} {earlier : List (List Token)} {tokens : List Token}

/-- Tokens of a continuation line are appended to the last logical line. -/
theorem gather_of_plus (hg : g.lines = last :: earlier) (hplus : tokens.any isPlus = true) :
    gather g tokens = ⟨(last ++ tokens.filter isContent) :: earlier, g.strays⟩ := by
  unfold gather
  dsimp only
  rw [hg, hplus]
  cases tokens.filter isContent with
  | nil =>
    rw [List.append_nil]
    rfl
  | cons t rest => rfl

/-- Other tokens follow the last logical line. -/
theorem gather_of_not_plus (hg : g.lines = last :: earlier) (hplus : tokens.any isPlus = false) :
    gather g tokens =
      ⟨if tokens.filter isContent = [] then last :: earlier
        else tokens.filter isContent :: last :: earlier, g.strays⟩ := by
  unfold gather
  dsimp only
  rw [hg, hplus]
  cases tokens.filter isContent with
  | nil => rfl
  | cons t rest => rfl

/-- Once there is a logical line, further tokens make it longer or follow it. -/
theorem exists_foldl_gather (hg : g.lines = last :: earlier) (rows : List (List Token)) :
    ∃ (more : List Token) (later : List (List Token)),
      rows.foldl gather g = ⟨later ++ (last ++ more) :: earlier, g.strays⟩ := by
  induction rows generalizing g last earlier with
  | nil =>
    refine ⟨[], [], ?_⟩
    rw [List.append_nil, List.nil_append, ← hg]
    rfl
  | cons tokens rest ih =>
    rw [List.foldl_cons]
    cases hplus : tokens.any isPlus with
    | true =>
      rw [gather_of_plus hg hplus]
      obtain ⟨more, later, hrest⟩ :=
        ih (g := ⟨(last ++ tokens.filter isContent) :: earlier, g.strays⟩) rfl
      exact ⟨tokens.filter isContent ++ more, later, by rw [hrest, List.append_assoc]⟩
    | false =>
      rw [gather_of_not_plus hg hplus]
      by_cases hcontent : tokens.filter isContent = []
      · rw [if_pos hcontent]
        exact ih (g := ⟨last :: earlier, g.strays⟩) rfl
      · rw [if_neg hcontent]
        obtain ⟨more, later, hrest⟩ :=
          ih (g := ⟨tokens.filter isContent :: last :: earlier, g.strays⟩) rfl
        exact ⟨[], later ++ [tokens.filter isContent ++ more], by rw [hrest]; simp⟩

end Behind

/-- The faults of a text in front of which the title has been read. -/
def faultsBehindTitle (text : String) : List LexFault :=
  (lexLines 1 false (Text.splitLines text.toList)).flatten.filterMap Lexeme.fault?

/-- The number of faults does not depend on where the lines stand. -/
theorem length_faults_lexLines (line line' : Nat) (pending : Bool) (lines : List (List Char)) :
    ((lexLines line pending lines).flatten.filterMap Lexeme.fault?).length =
      ((lexLines line' pending lines).flatten.filterMap Lexeme.fault?).length := by
  have hfault : ∀ l : List Lexeme, (l.filterMap Lexeme.fault?).length =
      ((l.map Lexeme.piece).filterMap Piece.problem?).length := by
    intro l
    rw [List.filterMap_map]
    have hsame : Piece.problem? ∘ Lexeme.piece =
        fun lexeme => lexeme.fault?.map LexFault.problem := by
      funext lexeme
      cases lexeme <;> rfl
    rw [hsame, ← List.map_filterMap, List.length_map]
  rw [hfault, hfault, List.map_flatten, List.map_flatten, piece_lexLines line line']

/-- What a text behind another one does to the logical lines and faults of the first: it makes the
last line longer and adds lines, and it adds its own faults. -/
theorem tokenize_append {text : String} (h : (tokenize text).lines ≠ []) (behind : String) :
    (∃ (earlier : List (List Token)) (last more : List Token) (later : List (List Token)),
      (tokenize text).lines = earlier ++ [last] ∧
        (tokenize (text ++ "\n" ++ behind)).lines = earlier ++ (last ++ more) :: later) ∧
    (tokenize (text ++ "\n" ++ behind)).faults.length =
      (tokenize text).faults.length + (faultsBehindTitle behind).length := by
  have hchars : (text ++ "\n" ++ behind).toList = text.toList ++ '\n' :: behind.toList := by
    simp
  have hpieces : lexText (text ++ "\n" ++ behind).toList = lexText text.toList ++
      lexLines (1 + (Text.splitLines text.toList).length) false
        (Text.splitLines behind.toList) := by
    unfold lexText
    rw [hchars, Text.splitLines_append, lexLines_append, pendingBehind_of_lines h]
  let gathered := (rows 1 true (Text.splitLines text.toList)).foldl gather ⟨[], []⟩
  have hreverse : (tokenize text).lines = gathered.lines.reverse := rfl
  cases hgathered : gathered.lines with
  | nil =>
    rw [hreverse, hgathered] at h
    exact absurd rfl h
  | cons last earlier =>
    obtain ⟨more, later, hfold⟩ := exists_foldl_gather hgathered
      (rows (1 + (Text.splitLines text.toList).length) false (Text.splitLines behind.toList))
    have hboth : ((lexText (text ++ "\n" ++ behind).toList).map
        (·.filterMap Lexeme.token?)).foldl gather ⟨[], []⟩ =
        ⟨later ++ (last ++ more) :: earlier, gathered.strays⟩ := by
      rw [hpieces, List.map_append, List.foldl_append]
      exact hfold
    refine ⟨⟨earlier.reverse, last, more, later.reverse, ?_, ?_⟩, ?_⟩
    · rw [hreverse, hgathered, List.reverse_cons]
    · unfold tokenize ofPieces
      dsimp only
      rw [hboth]
      simp
    · unfold tokenize ofPieces faultsBehindTitle
      dsimp only
      rw [hboth, hpieces]
      simp only [List.flatten_append, List.filterMap_append, List.length_append, List.length_map]
      rw [length_faults_lexLines _ 1]
      show _ + gathered.strays.length = _ + gathered.strays.length + _
      omega

end Tokenized

end FlatNet
