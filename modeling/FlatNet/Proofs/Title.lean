import FlatNet.Proofs.Cutting

/-!
# The title line

The logical lines of a text hold all its tokens of use, each one once and in the order of the text.
The first of them begins with the title and ends there, unless the next line with tokens of use is
a continuation line.  Such a line is appended to the title's line, of which a reader of lines takes
nothing but the title.
-/

set_option autoImplicit false

namespace FlatNet

open Lexer

namespace Tokenized

variable {g : Gathering} {first : List Token}

/-! ## Nothing is lost -/

/-- The tokens of use of a text, in order. -/
def contentOf (text : String) : List Token :=
  ((lexemes text).filterMap Lexeme.token?).filter isContent

/-- Newlines between lines add no token of use. -/
theorem content_joinLines (line : Nat) (lines : List (List Char)) (pieces : List (List Lexeme)) :
    ((joinLines line lines pieces).filterMap Lexeme.token?).filter isContent =
      (pieces.flatten.filterMap Lexeme.token?).filter isContent := by
  fun_induction joinLines line lines pieces with
  | case1 line cs next rest row more ih =>
    rw [List.filterMap_append, List.filter_append, List.flatten_cons, List.filterMap_append,
      List.filter_append, ← ih]
    rfl
  | case2 line lines pieces => rfl

/-- A first row with tokens of use begins the first logical line, also behind a mark. -/
theorem gather_of_nil (hg : g.lines = []) {tokens : List Token}
    (hcontent : tokens.filter isContent ≠ []) :
    (gather g tokens).lines = [tokens.filter isContent] := by
  unfold gather
  dsimp only
  rw [hg]
  cases hrow : tokens.filter isContent with
  | nil => exact absurd hrow hcontent
  | cons t rest => cases tokens.any isPlus <;> rfl

/-- The tokens of all lines are those gathered before and those of use among the new ones. -/
theorem flatten_gather (g : Gathering) (tokens : List Token) :
    (gather g tokens).lines.reverse.flatten =
      g.lines.reverse.flatten ++ tokens.filter isContent := by
  by_cases hcontent : tokens.filter isContent = []
  · rw [gather_of_content tokens hcontent, hcontent, List.append_nil]
  · cases hg : g.lines with
    | nil =>
      rw [gather_of_nil hg hcontent]
      exact List.append_nil _
    | cons last earlier =>
      cases hplus : tokens.any isPlus with
      | true => simp [gather_of_plus hg hplus]
      | false => simp [gather_of_not_plus hg hplus, hcontent]

/-- Rows of tokens go into the logical lines one after another. -/
theorem flatten_foldl_gather (g : Gathering) (rows : List (List Token)) :
    (rows.foldl gather g).lines.reverse.flatten =
      g.lines.reverse.flatten ++ rows.flatten.filter isContent := by
  induction rows generalizing g with
  | nil => exact (List.append_nil _).symm
  | cons tokens rest ih =>
    rw [List.foldl_cons, ih, flatten_gather, List.flatten_cons, List.filter_append,
      List.append_assoc]

/-- The rows of tokens of a text, one row for each of its lines. -/
def rowsOf (text : String) : List (List Token) := rows 1 true (Text.splitLines text.toList)

/-- The logical lines hold the tokens of use, each one once and in the order of the text. -/
theorem flatten_lines (text : String) : (tokenize text).lines.flatten = contentOf text := by
  have hrows : (rowsOf text).flatten = (lexText text.toList).flatten.filterMap Lexeme.token? := by
    unfold rowsOf rows lexText
    rw [← List.filterMap_flatten]
  unfold contentOf lexemes
  rw [content_joinLines, ← hrows]
  exact flatten_foldl_gather ⟨[], []⟩ (rowsOf text)

/-- The row has no token of use. -/
def IsIdle (tokens : List Token) : Prop := tokens.filter isContent = []

instance (tokens : List Token) : Decidable (IsIdle tokens) :=
  decidable_of_iff ((tokens.filter isContent).isEmpty = true) List.isEmpty_iff

/-- Rows without tokens of use leave the gathered lines as they are. -/
theorem lines_of_idle (g : Gathering) {rows : List (List Token)} (h : ∀ row ∈ rows, IsIdle row) :
    (rows.foldl gather g).lines = g.lines := by
  induction rows generalizing g with
  | nil => rfl
  | cons tokens rest ih =>
    obtain ⟨htokens, hrest⟩ := List.forall_mem_cons.mp h
    rw [List.foldl_cons, ih _ hrest, gather_of_content tokens htokens]

/-! ## The title token -/

/-- The token is the title that one of the lines gives, these being counted from a number. -/
structure IsTitleOf (line : Nat) (lines : List (List Char)) (title : Token) : Prop where
  kind : title.kind = .quotedString
  given : ∃ k cs, title.line = line + k ∧ lines[k]? = some cs ∧
    title.text = String.ofList (titleOf cs)

/-- The line behind which the title is no longer to come is one token, the title. -/
theorem exists_title_of_given {line : Nat} {cs : List Char} (h : (lexLine line true cs).2 = false) :
    ∃ title, (lexLine line true cs).1 = [.token title] ∧ title.kind = .quotedString ∧
      title.line = line ∧ title.text = String.ofList (titleOf cs) := by
  cases hstart : cs.dropWhile isBlank with
  | nil =>
    rw [lexLine_of_blank hstart] at h
    exact absurd h (by simp)
  | cons c tail =>
    have hwhite : ∀ d, isBlank d = true → Text.isWhiteSpace d = true := by
      intro d hd
      simp only [isBlank, Bool.or_eq_true, beq_iff_eq] at hd
      rcases hd with (rfl | rfl) | rfl <;> decide
    have htitle : titleOf (c :: tail) = titleOf cs := by
      unfold titleOf Text.trim
      rw [← hstart, dropWhile_dropWhile hwhite]
    rw [lexLine_of_start hstart] at h ⊢
    split at h
    · exact absurd h (by simp)
    · rename_i hstar
      rw [if_neg hstar]
      split at h
      · rename_i hgiven
        rw [if_pos hgiven, htitle]
        exact ⟨_, rfl, rfl, rfl, rfl⟩
      · split at h <;> exact absurd h (by simp)

/-- The first row of a text that has tokens of use is the title. -/
theorem exists_title (line : Nat) (lines : List (List Char)) :
    (∀ row ∈ rows line true lines, IsIdle row) ∨
      ∃ before title behind, rows line true lines = before ++ [title] :: behind ∧
        (∀ row ∈ before, IsIdle row) ∧ IsTitleOf line lines title := by
  induction lines generalizing line with
  | nil => exact .inl (List.forall_mem_nil _)
  | cons cs rest ih =>
    have hrows : rows line true (cs :: rest) =
        (lexLine line true cs).1.filterMap Lexeme.token? ::
          rows (line + 1) (lexLine line true cs).2 rest := rfl
    rw [hrows]
    cases hpending : (lexLine line true cs).2 with
    | false =>
      obtain ⟨title, hrow, hkind, hline, htext⟩ := exists_title_of_given hpending
      rw [hrow]
      exact .inr ⟨[], title, _, rfl, List.forall_mem_nil _, hkind, 0, cs, hline, rfl, htext⟩
    | true =>
      have hidle : IsIdle _ := content_of_pending hpending
      rcases ih (line + 1) with hall | ⟨before, title, behind, hbehind, hbefore, htitle⟩
      · exact .inl (List.forall_mem_cons.mpr ⟨hidle, hall⟩)
      · obtain ⟨k, cs', hline, hcs, htext⟩ := htitle.given
        refine .inr ⟨_ :: before, title, behind, by rw [hbehind]; rfl,
          List.forall_mem_cons.mpr ⟨hidle, hbefore⟩, htitle.kind, k + 1, cs', ?_, hcs, htext⟩
        rw [hline, Nat.add_assoc, Nat.add_comm 1 k]

/-! ## The first logical line -/

/-- The first row with tokens of use is that of a continuation line. -/
def Continues : List (List Token) → Prop
  | [] => False
  | tokens :: rest => if IsIdle tokens then Continues rest else tokens.any isPlus = true

/-- The first logical line becomes longer exactly if the first row behind it that has tokens of use
is that of a continuation line. -/
theorem exists_lines_behind (hg : g.lines = [first]) (rows : List (List Token)) :
    ∃ (more : List Token) (later : List (List Token)),
      (rows.foldl gather g).lines = later ++ [first ++ more] ∧ (more = [] ↔ ¬Continues rows) := by
  induction rows generalizing g with
  | nil =>
    refine ⟨[], [], ?_, iff_of_true rfl id⟩
    rw [List.append_nil]
    exact hg
  | cons tokens rest ih =>
    rw [List.foldl_cons]
    unfold Continues
    by_cases hidle : IsIdle tokens
    · rw [if_pos hidle]
      exact ih ((gather_of_content tokens hidle).trans hg)
    · rw [if_neg hidle]
      cases hplus : tokens.any isPlus with
      | true =>
        rw [gather_of_plus hg hplus]
        obtain ⟨more, later, hrest⟩ := exists_foldl_gather
          (g := ⟨[first ++ tokens.filter isContent], g.strays⟩) rfl rest
        refine ⟨tokens.filter isContent ++ more, later, by rw [hrest, List.append_assoc], ?_⟩
        exact iff_of_false (fun hnil => hidle (List.append_eq_nil_iff.mp hnil).1) (by simp)
      | false =>
        rw [gather_of_not_plus hg hplus, if_neg (show ¬tokens.filter isContent = [] from hidle)]
        obtain ⟨more, later, hrest⟩ := exists_foldl_gather
          (g := ⟨[tokens.filter isContent, first], g.strays⟩) rfl rest
        refine ⟨[], later ++ [tokens.filter isContent ++ more], ?_, iff_of_true rfl (by simp)⟩
        rw [hrest, List.append_nil]
        simp

/-- The title's line holds the title and nothing else, and the other logical lines hold all other
tokens of use, each one once and in the order of the text. -/
def SwallowsNothing (text : String) : Prop :=
  ∀ first rest, (tokenize text).lines = first :: rest →
    ∃ title, first = [title] ∧ IsTitleOf 1 (Text.splitLines text.toList) title ∧
      title :: rest.flatten = contentOf text

/-- The next row with tokens of use behind the title's is that of a continuation line. -/
def TitleContinued (text : String) : Prop :=
  Continues ((rowsOf text).dropWhile fun row => decide (IsIdle row)).tail

/-- The first logical line begins with the title, and has more only if it is continued. -/
theorem exists_lines_of_title {text : String} {before behind : List (List Token)} {title : Token}
    (hrows : rowsOf text = before ++ [title] :: behind) (hbefore : ∀ row ∈ before, IsIdle row)
    (hkind : title.kind = .quotedString) :
    ∃ (more : List Token) (later : List (List Token)),
      (tokenize text).lines = (title :: more) :: later ∧ (more = [] ↔ ¬TitleContinued text) := by
  have hlines : (tokenize text).lines = ((rowsOf text).foldl gather ⟨[], []⟩).lines.reverse := rfl
  have hcontent : [title].filter isContent = [title] := by
    unfold isContent
    rw [List.filter_cons, hkind]
    rfl
  have hfirst : ((rowsOf text).dropWhile fun row => decide (IsIdle row)) = [title] :: behind := by
    have hstays : ¬IsIdle [title] := fun h => absurd (hcontent.symm.trans h) (by simp)
    have hdropped : before.dropWhile (fun row => decide (IsIdle row)) = [] :=
      List.dropWhile_eq_nil_iff.mpr fun row hrow => decide_eq_true (hbefore row hrow)
    rw [hrows, List.dropWhile_append, hdropped, List.isEmpty_nil, if_pos rfl,
      List.dropWhile_cons, if_neg (by simpa using hstays)]
  have hstart : (gather (before.foldl gather ⟨[], []⟩) [title]).lines = [[title]] := by
    rw [gather_of_nil (lines_of_idle _ hbefore) (by rw [hcontent]; simp), hcontent]
  obtain ⟨more, later, hgathered, hmore⟩ := exists_lines_behind hstart behind
  refine ⟨more, later.reverse, ?_, ?_⟩
  · rw [hlines, hrows, List.foldl_append, List.foldl_cons, hgathered, List.reverse_append]
    rfl
  · unfold TitleContinued
    rw [hfirst]
    exact hmore

/-- The title's line swallows nothing exactly if no continuation line follows it directly. -/
theorem swallowsNothing_iff (text : String) : SwallowsNothing text ↔ ¬TitleContinued text := by
  have htitles : (∀ row ∈ rowsOf text, IsIdle row) ∨ ∃ before title behind,
      rowsOf text = before ++ [title] :: behind ∧ (∀ row ∈ before, IsIdle row) ∧
        IsTitleOf 1 (Text.splitLines text.toList) title := exists_title 1 _
  unfold SwallowsNothing
  rcases htitles with hall | ⟨before, title, behind, hrows, hbefore, htitle⟩
  · have hlines : (tokenize text).lines = ((rowsOf text).foldl gather ⟨[], []⟩).lines.reverse :=
      rfl
    have hnone : (rowsOf text).dropWhile (fun row => decide (IsIdle row)) = [] :=
      List.dropWhile_eq_nil_iff.mpr fun row hrow => decide_eq_true (hall row hrow)
    unfold TitleContinued
    rw [hlines, lines_of_idle _ hall, hnone]
    exact iff_of_true (fun _ _ h => absurd h (by simp)) id
  · obtain ⟨more, later, hlines, hmore⟩ := exists_lines_of_title hrows hbefore htitle.kind
    rw [hlines, ← hmore]
    constructor
    · intro h
      obtain ⟨title', hsingle, -, -⟩ := h _ _ rfl
      exact (List.cons.inj hsingle).2
    · rintro rfl first rest hcons
      obtain ⟨rfl, rfl⟩ := List.cons.inj hcons
      refine ⟨title, rfl, htitle, ?_⟩
      rw [← flatten_lines, hlines]
      rfl

/-- A continuation line directly behind the title is swallowed. -/
theorem not_swallowsNothing_continued : ¬SwallowsNothing "t\n+ R1 a b rm\n" := by
  intro h
  have hlength : (tokenize "t\n+ R1 a b rm\n").lines.map List.length = [5] := by decide +kernel
  cases hlines : (tokenize "t\n+ R1 a b rm\n").lines with
  | nil =>
    rw [hlines] at hlength
    exact absurd hlength (by simp)
  | cons first rest =>
    obtain ⟨title, rfl, -⟩ := h first rest hlines
    rw [hlines] at hlength
    exact absurd (List.cons.inj hlength).1 (by simp)

end Tokenized

end FlatNet
