import FlatNet.Proofs.Readers
import FlatNet.Token.LogicalLine

/-!
# What is known of tokens

Identifiers are made of the characters of names, and the faults of pieces are lexical ones.
Whatever a text gives is cut from one of its lines and carries the number of that line; `TokenRead`
lists the ways in which a piece of a line becomes a token.  Logical lines are gathered from lines of
text in order: a logical line begins behind all tokens of those before it.
-/

set_option autoImplicit false

namespace FlatNet

open Text (isWordChar)

/-- The text of an identifier is a name: characters of names, and at least one. -/
def Token.Named (t : Token) : Prop :=
  t.isIdentifier = true → t.text.toList ≠ [] ∧ ∀ c ∈ t.text.toList, isWordChar c = true

/-- A piece is a named token or a lexical fault. -/
def Piece.Proper : Piece → Prop
  | .token kind text => (⟨kind, text, 0, 0⟩ : Token).Named
  | .fault problem _ => problem.problemClass = .lexical

/-- A named token or a lexical fault in the line of a number. -/
def Lexeme.ProperAt (line : Nat) : Lexeme → Prop
  | .token t => t.Named ∧ t.line = line
  | .fault f => f.problem.problemClass = .lexical ∧ f.line = line

namespace Lexer

/-! ## Pieces -/

/-- What is wrong with an expression is a lexical problem. -/
theorem class_of_readExpression {shown raw : List Char} {problem : Problem}
    (h : readExpression shown raw = .error problem) : problem.problemClass = .lexical := by
  unfold readExpression at h
  dsimp only at h
  split at h
  · exact absurd h (by simp)
  · rw [← Except.error.inj h]
    rfl

/-- What is wrong with a quoted text is a lexical problem. -/
theorem class_of_readQuoted {cs : List Char} {problem : Problem}
    (h : (readQuoted cs).result = .error problem) : problem.problemClass = .lexical := by
  unfold readQuoted at h
  split at h
  · exact absurd h (by simp)
  · rw [← Except.error.inj h]
    rfl

/-- What is wrong with an expression in braces is a lexical problem. -/
theorem class_of_readBraces {cs : List Char} {problem : Problem}
    (h : (readBraces cs).result = .error problem) : problem.problemClass = .lexical := by
  unfold readBraces at h
  split at h
  · exact class_of_readExpression h
  · rw [← Except.error.inj h]
    rfl

/-- What is wrong with a number is a lexical problem. -/
theorem class_of_readNumber? {cs : List Char}
    {taken : Taken (Except Problem (TokenKind × List Char))} (hread : readNumber? cs = some taken)
    {problem : Problem} (h : taken.result = .error problem) : problem.problemClass = .lexical := by
  cases readNumber?_eq_some_iff.mp hread with
  | plain | scaled => exact absurd h (by simp)
  | malformed =>
    rw [← Except.error.inj h]
    rfl

/-- What is wrong with a value is a lexical problem. -/
theorem class_of_readValue {cs : List Char} {problem : Problem}
    (h : (readValue cs).result = .faulty problem) : problem.problemClass = .lexical := by
  have hread := valueRead cs
  generalize readValue cs = taken at h hread
  cases hread with
  | faultyBraces hbraces =>
    obtain rfl := ValueReading.faulty.inj h
    exact class_of_readBraces (congrArg Taken.result hbraces)
  | faultyExpression _ hexpression =>
    obtain rfl := ValueReading.faulty.inj h
    exact class_of_readExpression hexpression
  | faultyQuoted hquoted =>
    obtain rfl := ValueReading.faulty.inj h
    exact class_of_readQuoted (congrArg Taken.result hquoted)
  | faultyNumber hnumber =>
    obtain rfl := ValueReading.faulty.inj h
    exact class_of_readNumber? hnumber rfl
  | valueless =>
    obtain rfl := ValueReading.faulty.inj h
    rfl
  | _ => exact absurd h (by simp)

/-- A token of another kind than identifiers is named. -/
theorem named_of_isIdentifier_eq_false {t : Token} (h : t.isIdentifier = false) : t.Named := by
  intro htrue
  rw [h] at htrue
  exact absurd htrue (by simp)

/-- A word is read as a named token or a lexical fault. -/
theorem proper_readWord {c : Char} {tail : List Char} (h : startsWord c = true) :
    (readWord (c :: tail)).result.Proper := by
  have hread := wordRead (c :: tail)
  generalize readWord (c :: tail) = taken at hread ⊢
  cases hread with
  | definition | path => exact named_of_isIdentifier_eq_false rfl
  | faulty _ hvalue => exact class_of_readValue (congrArg Taken.result hvalue)
  | missing => rfl
  | identifier =>
    intro _
    dsimp only
    rw [String.toList_ofList, List.takeWhile_cons, isWordChar_of_startsWord h, if_pos rfl]
    refine ⟨List.cons_ne_nil _ _, fun d hd => ?_⟩
    rcases List.mem_cons.1 hd with rfl | hd
    · exact isWordChar_of_startsWord h
    · exact List.mem_takeWhile_imp hd

/-- The kind of a literal is no identifier. -/
theorem kind_of_readNumber? {cs : List Char}
    {taken : Taken (Except Problem (TokenKind × List Char))} (hread : readNumber? cs = some taken)
    {kind : TokenKind} {text : List Char} (h : taken.result = .ok (kind, text)) :
    kind.isNumeric = true := by
  cases readNumber?_eq_some_iff.mp hread with
  | plain =>
    obtain ⟨rfl, -⟩ := Prod.mk.inj (Except.ok.inj h)
    unfold literalKind
    split <;> rfl
  | scaled =>
    obtain ⟨rfl, -⟩ := Prod.mk.inj (Except.ok.inj h)
    rfl
  | malformed => exact absurd h (by simp)

/-- Whatever a piece begins with, it is a named token or a lexical fault. -/
theorem proper_readPiece (first : Bool) (c : Char) (tail : List Char) :
    (readPiece first c tail).result.Proper := by
  have hread := pieceRead first c tail
  generalize readPiece first c tail = taken at hread ⊢
  cases hread with
  | comment | quoted | braces | command | path => exact named_of_isIdentifier_eq_false rfl
  | faultyQuoted hquoted => exact class_of_readQuoted (congrArg Taken.result hquoted)
  | faultyBraces hbraces => exact class_of_readBraces (congrArg Taken.result hbraces)
  | number hnumber =>
    rename_i kind
    have hkind := kind_of_readNumber? hnumber rfl
    refine named_of_isIdentifier_eq_false ?_
    cases kind <;> first | rfl | exact absurd hkind (by simp [TokenKind.isNumeric])
  | faultyNumber hnumber => exact class_of_readNumber? hnumber rfl
  | word hstarts hword => exact hword ▸ proper_readWord hstarts
  | illegal => rfl

/-! ## Tokens that are pieces -/

/-- How a piece that is a token is read, `c` being its first character and `tail` what follows. -/
inductive TokenRead (c : Char) (tail : List Char) : TokenKind → String → Prop
  | comment (text : String) : TokenRead c tail .comment text
  | quoted (text : String) : TokenRead c tail .quotedString text
  | command (text : String) : TokenRead c tail .command text
  | path (text : String) : TokenRead c tail .fileName text
  | braces {text : String} {e : Expr} (h : (readBraces tail).result = .ok (text, e)) :
      TokenRead c tail (.expression e) text
  | number {kind : TokenKind} {literal rest : List Char}
      (h : readNumber? (c :: tail) = some ⟨.ok (kind, literal), rest⟩) :
      TokenRead c tail kind (String.ofList literal)
  | identifier (text : String) : TokenRead c tail .identifier text
  | paramDef {name text : String} {e : Expr} {start : List Char}
      (h : (readValue start).result = .value e) : TokenRead c tail (.paramDef name e) text

section TokenRead

variable {kind : TokenKind} {text : String}

/-- A word that is a token is read in one of the ways. -/
theorem tokenRead_of_readWord {c : Char} {tail : List Char}
    (h : (readWord (c :: tail)).result = .token kind text) : TokenRead c tail kind text := by
  have hread := wordRead (c :: tail)
  generalize readWord (c :: tail) = taken at h hread
  cases hread with
  | definition _ hvalue =>
    obtain ⟨rfl, rfl⟩ := Piece.token.inj h
    exact .paramDef (congrArg Taken.result hvalue)
  | path =>
    obtain ⟨rfl, rfl⟩ := Piece.token.inj h
    exact .path _
  | identifier =>
    obtain ⟨rfl, rfl⟩ := Piece.token.inj h
    exact .identifier _
  | faulty | missing => exact absurd h (by simp)

/-- A piece that is a token is read in one of the ways. -/
theorem tokenRead_of_readPiece {first : Bool} {c : Char} {tail : List Char}
    (h : (readPiece first c tail).result = .token kind text) : TokenRead c tail kind text := by
  have hread := pieceRead first c tail
  generalize readPiece first c tail = taken at h hread
  cases hread with
  | comment =>
    obtain ⟨rfl, rfl⟩ := Piece.token.inj h
    exact .comment _
  | quoted =>
    obtain ⟨rfl, rfl⟩ := Piece.token.inj h
    exact .quoted _
  | braces hbraces =>
    obtain ⟨rfl, rfl⟩ := Piece.token.inj h
    exact .braces (congrArg Taken.result hbraces)
  | command =>
    obtain ⟨rfl, rfl⟩ := Piece.token.inj h
    exact .command _
  | number hnumber =>
    obtain ⟨rfl, rfl⟩ := Piece.token.inj h
    exact .number hnumber
  | word _ hword => exact tokenRead_of_readWord (hword ▸ h)
  | path =>
    obtain ⟨rfl, rfl⟩ := Piece.token.inj h
    exact .path _
  | faultyQuoted | faultyBraces | faultyNumber | illegal => exact absurd h (by simp)

end TokenRead

end Lexer

/-! ## Lines of text -/

/-- What a line of text gives: a comment, the title, the mark of a continuation line, a piece, or
the end of the line. -/
inductive Lexeme.CutFrom (line : Nat) : Lexeme → Prop
  | comment (text : String) (column : Nat) : CutFrom line (.token ⟨.comment, text, line, column⟩)
  | title (text : String) (column : Nat) : CutFrom line (.token ⟨.quotedString, text, line, column⟩)
  | continuation (column : Nat) : CutFrom line (.token ⟨.plus, "+", line, column⟩)
  | piece (first : Bool) (c : Char) (tail : List Char) (column : Nat) :
      CutFrom line (Lexer.Piece.place line column (Lexer.readPiece first c tail).result)
  | newline (column : Nat) : CutFrom line (.token ⟨.newline, "\n", line, column⟩)

/-- What is cut from a line is a named token or a lexical fault in it. -/
theorem Lexeme.CutFrom.properAt {l : Lexeme} {line : Nat} (h : l.CutFrom line) :
    l.ProperAt line := by
  cases h with
  | piece first c tail column =>
    have hproper := Lexer.proper_readPiece first c tail
    cases hresult : (Lexer.readPiece first c tail).result with
    | token kind text =>
      rw [hresult] at hproper
      exact ⟨hproper, rfl⟩
    | fault problem distance =>
      rw [hresult] at hproper
      exact ⟨hproper, rfl⟩
  | _ => exact ⟨Lexer.named_of_isIdentifier_eq_false rfl, rfl⟩

/-- A token of a line that is no comment, no title and no mark is a piece. -/
theorem Lexeme.CutFrom.token_cases {t : Token} {line : Nat} (h : (Lexeme.token t).CutFrom line) :
    t.kind ∈ [.comment, .quotedString, .plus, .newline] ∨
      ∃ c tail, Lexer.TokenRead c tail t.kind t.text := by
  generalize hl : Lexeme.token t = l at h
  cases h with
  | piece first c tail column =>
    right
    refine ⟨c, tail, ?_⟩
    cases hresult : (Lexer.readPiece first c tail).result with
    | token kind text =>
      rw [hresult] at hl
      obtain rfl := Lexeme.token.inj hl
      exact Lexer.tokenRead_of_readPiece hresult
    | fault problem distance =>
      rw [hresult] at hl
      exact absurd hl (by simp [Lexer.Piece.place])
  | _ =>
    left
    obtain rfl := Lexeme.token.inj hl
    simp

namespace Lexer

/-- The pieces of a line are cut from it. -/
theorem cutFrom_lexPieces (line column : Nat) (first : Bool) (cs : List Char) :
    ∀ l ∈ lexPieces line column first cs, l.CutFrom line := by
  induction column, first, cs using lexPieces.induct with
  | case1 column first =>
    rw [lexPieces]
    exact List.forall_mem_nil _
  | case2 column first c tail hblank ih =>
    rw [lexPieces, if_pos hblank]
    exact ih
  | case3 column first c tail hblank taken ih =>
    rw [lexPieces, if_neg hblank]
    exact List.forall_mem_cons.2 ⟨.piece first c tail column, ih⟩

/-- A line gives nothing but what is cut from it. -/
theorem cutFrom_lexLine (line : Nat) (titlePending : Bool) (cs : List Char) :
    ∀ l ∈ (lexLine line titlePending cs).1, l.CutFrom line := by
  unfold lexLine
  dsimp only
  split
  · exact List.forall_mem_nil _
  · split
    · exact List.forall_mem_singleton.2 (.comment _ _)
    · split
      · exact List.forall_mem_singleton.2 (.title _ _)
      · split
        · exact List.forall_mem_cons.2 ⟨.continuation _, cutFrom_lexPieces _ _ _ _⟩
        · exact cutFrom_lexPieces _ _ _ _

/-- What a line gives carries its number. -/
theorem cutFrom_lexLines (line : Nat) (titlePending : Bool) (rows : List (List Char)) (k : Nat)
    (hk : k < (lexLines line titlePending rows).length) :
    ∀ l ∈ (lexLines line titlePending rows)[k], l.CutFrom (line + k) := by
  induction rows generalizing line titlePending k with
  | nil => exact absurd hk (Nat.not_lt_zero k)
  | cons cs rest ih =>
    cases k with
    | zero => exact cutFrom_lexLine line titlePending cs
    | succ k =>
      have hrest := ih (line + 1) (lexLine line titlePending cs).2 k (Nat.lt_of_succ_lt_succ hk)
      rw [Nat.add_assoc, Nat.add_comm 1] at hrest
      exact hrest

/-- What the lines of a text give is cut from one of them. -/
theorem exists_cutFrom_of_mem_lexLines {line : Nat} {titlePending : Bool} {rows : List (List Char)}
    {row : List Lexeme} (hrow : row ∈ lexLines line titlePending rows) {l : Lexeme} (hl : l ∈ row) :
    ∃ line', l.CutFrom line' := by
  obtain ⟨k, hk, rfl⟩ := List.getElem_of_mem hrow
  exact ⟨line + k, cutFrom_lexLines line titlePending rows k hk l hl⟩

/-- Between the lexemes of the lines there are the ends of the lines. -/
theorem mem_joinLines_cases {line : Nat} {rows : List (List Char)} {pieces : List (List Lexeme)}
    {l : Lexeme} (h : l ∈ joinLines line rows pieces) :
    l ∈ pieces.flatten ∨ ∃ line' column, l = .token ⟨.newline, "\n", line', column⟩ := by
  induction rows generalizing line pieces with
  | nil => exact .inl h
  | cons cs rest ih =>
    cases rest with
    | nil => exact .inl h
    | cons next rest =>
      cases pieces with
      | nil => exact .inl h
      | cons row more =>
        rw [joinLines, List.mem_append, List.mem_cons] at h
        rw [List.flatten_cons, List.mem_append]
        rcases h with hrow | rfl | hmore
        · exact .inl (.inl hrow)
        · exact .inr ⟨line, cs.length + 1, rfl⟩
        · exact (ih hmore).imp .inr id

/-- Every lexeme of a text is given by one of its lines. -/
theorem exists_cutFrom_of_mem_lexemes {text : String} {l : Lexeme} (h : l ∈ lexemes text) :
    ∃ line, l.CutFrom line := by
  rcases mem_joinLines_cases h with hl | ⟨line, column, rfl⟩
  · obtain ⟨row, hrow, hl⟩ := List.mem_flatten.1 hl
    exact exists_cutFrom_of_mem_lexLines hrow hl
  · exact ⟨line, .newline column⟩

end Lexer

/-! ## Logical lines -/

namespace Tokenized

/-- The number of the line of text that a logical line begins on. -/
def startOf (line : List Token) : Nat := (line.head?.map Token.line).getD 0

/-- What is known of logical lines, the last one first: their tokens are named, a line begins before
its tokens and behind those of the lines before it, and all tokens lie before the line of text that
comes next. -/
structure Ordered (lines : List (List Token)) (next : Nat) : Prop where
  nonempty : ∀ line ∈ lines, line ≠ []
  named : ∀ line ∈ lines, ∀ t ∈ line, t.Named
  start : ∀ line ∈ lines, ∀ t ∈ line, startOf line ≤ t.line
  before : ∀ line ∈ lines, ∀ t ∈ line, t.line < next
  apart : lines.Pairwise fun later earlier => ∀ t ∈ earlier, t.line < startOf later

variable {lines : List (List Token)} {content : List Token} {next : Nat}

/-- A line without tokens keeps the logical lines in order. -/
theorem Ordered.skip (h : Ordered lines next) : Ordered lines (next + 1) :=
  { h with before := fun line hline t ht => Nat.lt_succ_of_lt (h.before line hline t ht) }

/-- A line of text begins a logical line. -/
theorem Ordered.cons (h : Ordered lines next) (hne : content ≠ [])
    (hcontent : ∀ t ∈ content, t.Named ∧ t.line = next) :
    Ordered (content :: lines) (next + 1) := by
  have hstart : startOf content = next := by
    cases content with
    | nil => exact absurd rfl hne
    | cons t rest => exact (hcontent t List.mem_cons_self).2
  constructor
  · exact List.forall_mem_cons.2 ⟨hne, h.nonempty⟩
  · exact List.forall_mem_cons.2 ⟨fun t ht => (hcontent t ht).1, h.named⟩
  · exact List.forall_mem_cons.2
      ⟨fun t ht => Nat.le_of_eq (hstart.trans (hcontent t ht).2.symm), h.start⟩
  · refine List.forall_mem_cons.2 ⟨fun t ht => ?_, h.skip.before⟩
    rw [(hcontent t ht).2]
    exact Nat.lt_succ_self next
  · refine List.pairwise_cons.2 ⟨fun line hline t ht => ?_, h.apart⟩
    rw [hstart]
    exact h.before line hline t ht

/-- A line of text continues the last logical line. -/
theorem Ordered.continue {last : List Token} (h : Ordered (last :: lines) next)
    (hcontent : ∀ t ∈ content, t.Named ∧ t.line = next) :
    Ordered ((last ++ content) :: lines) (next + 1) := by
  obtain ⟨hlast, hlines⟩ := List.forall_mem_cons.1 h.nonempty
  obtain ⟨hnamed, hnameds⟩ := List.forall_mem_cons.1 h.named
  obtain ⟨hstarts, hrest⟩ := List.forall_mem_cons.1 h.start
  obtain ⟨hbefore, hbefores⟩ := List.forall_mem_cons.1 h.skip.before
  obtain ⟨hapart, haparts⟩ := List.pairwise_cons.1 h.apart
  have hstart : startOf (last ++ content) = startOf last := by
    cases last with
    | nil => exact absurd rfl hlast
    | cons t rest => rfl
  have hle : startOf last < next := by
    cases last with
    | nil => exact absurd rfl hlast
    | cons t rest => exact h.before _ List.mem_cons_self t List.mem_cons_self
  constructor
  · exact List.forall_mem_cons.2 ⟨List.append_ne_nil_of_left_ne_nil hlast _, hlines⟩
  · exact List.forall_mem_cons.2
      ⟨List.forall_mem_append.2 ⟨hnamed, fun t ht => (hcontent t ht).1⟩, hnameds⟩
  · refine List.forall_mem_cons.2 ⟨?_, hrest⟩
    rw [hstart]
    refine List.forall_mem_append.2 ⟨hstarts, fun t ht => ?_⟩
    rw [(hcontent t ht).2]
    exact Nat.le_of_lt hle
  · refine List.forall_mem_cons.2 ⟨List.forall_mem_append.2 ⟨hbefore, fun t ht => ?_⟩, hbefores⟩
    rw [(hcontent t ht).2]
    exact Nat.lt_succ_self next
  · refine List.pairwise_cons.2 ⟨fun line hline t ht => ?_, haparts⟩
    rw [hstart]
    exact hapart line hline t ht

/-- A line of text keeps the logical lines in order. -/
theorem Ordered.gather {g : Gathering} (h : Ordered g.lines next) {tokens : List Token}
    (htokens : ∀ t ∈ tokens, t.Named ∧ t.line = next) :
    Ordered (gather g tokens).lines (next + 1) := by
  have hcontent : ∀ t ∈ tokens.filter isContent, t.Named ∧ t.line = next :=
    fun t ht => htokens t (List.mem_filter.1 ht).1
  unfold Tokenized.gather
  dsimp only
  split
  · exact h.skip
  · rename_i hlines _
    rw [hlines] at h
    exact h.continue hcontent
  · rename_i hne _
    exact h.cons hne hcontent

/-- Lines of text, one after the other, keep the logical lines in order. -/
theorem Ordered.foldl_gather {g : Gathering} (h : Ordered g.lines next) (rows : List (List Token))
    (hrows : ∀ k (hk : k < rows.length), ∀ t ∈ rows[k], t.Named ∧ t.line = next + k) :
    Ordered (rows.foldl Tokenized.gather g).lines (next + rows.length) := by
  induction rows generalizing g next with
  | nil => exact h
  | cons tokens rest ih =>
    have hfirst := h.gather fun t ht => hrows 0 (Nat.succ_pos _) t ht
    have hrest := ih hfirst fun k hk t ht => by
      have hboth := hrows (k + 1) (Nat.succ_lt_succ hk) t ht
      exact ⟨hboth.1, by omega⟩
    rw [List.length_cons, Nat.add_comm rest.length, ← Nat.add_assoc]
    exact hrest

/-- The logical lines of a text, the last one first, are in order. -/
theorem ordered_tokenize (text : String) :
    ∃ next, Ordered (tokenize text).lines.reverse next := by
  have hempty : Ordered [] 1 :=
    ⟨List.forall_mem_nil _, List.forall_mem_nil _, List.forall_mem_nil _, List.forall_mem_nil _,
      .nil⟩
  have hrows := Ordered.foldl_gather (g := ⟨[], []⟩) hempty
    ((Lexer.lexText text.toList).map (·.filterMap Lexeme.token?)) fun k hk t ht => by
      rw [List.getElem_map] at ht
      obtain ⟨l, hl, hsome⟩ := List.mem_filterMap.1 ht
      rw [List.length_map] at hk
      have hproper := (Lexer.cutFrom_lexLines 1 true _ k hk l hl).properAt
      cases l with
      | token t' =>
        rw [← Option.some.inj hsome]
        exact hproper
      | fault f => exact absurd hsome (by simp [Lexeme.token?])
  have hlines : (tokenize text).lines.reverse =
      (((Lexer.lexText text.toList).map (·.filterMap Lexeme.token?)).foldl
        Tokenized.gather ⟨[], []⟩).lines := List.reverse_reverse _
  rw [← hlines] at hrows
  exact ⟨_, hrows⟩

section Tokenize

variable {text : String}

/-- The tokens of a text are named. -/
theorem named_of_mem_lines : ∀ line ∈ (tokenize text).lines, ∀ t ∈ line, t.Named := by
  obtain ⟨next, h⟩ := ordered_tokenize text
  exact fun line hline => h.named line (List.mem_reverse.2 hline)

/-- A logical line of a text is not empty. -/
theorem ne_nil_of_mem_lines : ∀ line ∈ (tokenize text).lines, line ≠ [] := by
  obtain ⟨next, h⟩ := ordered_tokenize text
  exact fun line hline => h.nonempty line (List.mem_reverse.2 hline)

/-- A logical line of a text begins before its tokens. -/
theorem startOf_le_of_mem_lines :
    ∀ line ∈ (tokenize text).lines, ∀ t ∈ line, startOf line ≤ t.line := by
  obtain ⟨next, h⟩ := ordered_tokenize text
  exact fun line hline => h.start line (List.mem_reverse.2 hline)

/-- A logical line of a text begins behind the tokens of those before it. -/
theorem pairwise_lines : (tokenize text).lines.Pairwise
    fun earlier later => ∀ t ∈ earlier, t.line < startOf later := by
  obtain ⟨next, h⟩ := ordered_tokenize text
  exact List.pairwise_reverse.1 h.apart

/-- The faults of a text have nothing to do with references. -/
theorem problemClass_of_mem_faults :
    ∀ f ∈ (tokenize text).faults, f.problem.problemClass ≠ .reference := by
  intro f hf
  rcases List.mem_append.1 hf with hf | hf
  · obtain ⟨l, hl, hsome⟩ := List.mem_filterMap.1 hf
    obtain ⟨row, hrow, hl⟩ := List.mem_flatten.1 hl
    obtain ⟨k, hk, rfl⟩ := List.mem_iff_getElem.1 hrow
    have hproper := (Lexer.cutFrom_lexLines 1 true _ k hk l hl).properAt
    cases l with
    | token t => exact absurd hsome (by simp [Lexeme.fault?])
    | fault f' =>
      rw [← Option.some.inj hsome, hproper.1]
      decide
  · obtain ⟨t, -, rfl⟩ := List.mem_map.1 hf
    show Problem.problemClass (.unexpectedToken "continuation" "+") ≠ .reference
    decide

end Tokenize

end Tokenized

end FlatNet
