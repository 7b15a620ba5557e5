import FlatNet.Proofs.Beginnings
import FlatNet.Proofs.Continuation

/-!
# Places

The line of a token is one more than the number of newlines before it, and its column one more than
the number of characters behind the last of them.  A lexer that counts lines and columns as it goes
finds exactly these, whatever pieces the text is made of; each piece begins behind the one before,
at a character that is no blank.  A token is placed where its line goes on with what the token is
quoted by.  The problems of a text are placed in the same way, at what they report, so that the line
that is quoted for a problem has a character under the caret.
-/

set_option autoImplicit false

namespace FlatNet

namespace Text

/-- The number of the line that a character of a text stands in. -/
def lineAt (cs : List Char) (n : Nat) : Nat := 1 + (cs.take n).count '\n'

/-- The number of a character in its line. -/
def columnAt (cs : List Char) (n : Nat) : Nat :=
  1 + ((cs.take n).reverse.takeWhile (· != '\n')).length

/-- A text from one of its characters to the end of the line. -/
def lineFrom (cs : List Char) (n : Nat) : List Char := (cs.drop n).takeWhile (· != '\n')

end Text

open Text (lineAt columnAt lineFrom)

namespace Lexeme

/-- The line of a token or of a problem. -/
def line : Lexeme → Nat
  | token t => t.line
  | fault f => f.line

/-- The column of a token or of a problem. -/
def column : Lexeme → Nat
  | token t => t.column
  | fault f => f.column

/-- The text begins with what the lexeme stands for: a token, or the construct that a problem
reports.  The text goes to the end of its line. -/
def Begins (cs : List Char) : Lexeme → Prop
  | token t => t.kind.Begins t.text cs
  | fault f => f.problem.Begins cs

/-- The lexeme is the end of a line. -/
def IsNewline : Lexeme → Prop
  | token t => t.kind = .newline
  | fault _ => False

/-- The lexeme is placed at a character of a text. -/
structure StandsAt (cs : List Char) (n : Nat) (l : Lexeme) : Prop where
  line : l.line = lineAt cs n
  column : l.column = columnAt cs n
  char : ∃ c, cs[n]? = some c ∧ Lexer.isBlank c = false ∧ (c = '\n' → l.IsNewline)
  begins : l.Begins (lineFrom cs n)

/-- The lexeme is placed at a character of a line. -/
structure StandsIn (line : Nat) (cs : List Char) (i : Nat) (l : Lexeme) : Prop where
  line : l.line = line
  column : l.column = i + 1
  char : ∃ c tail, cs.drop i = c :: tail ∧ Lexer.isBlank c = false
  begins : l.Begins (cs.drop i)

end Lexeme

open Lexeme (StandsAt StandsIn)

/-! ## Rows in ascending places -/

/-- The entries of a row stand at ascending places, the first one not before `n`. -/
inductive Ascending {α : Type} (P : Nat → α → Prop) : Nat → List α → Prop where
  | nil (n : Nat) : Ascending P n []
  | cons {n k : Nat} {a : α} {rest : List α} (hle : n ≤ k) (ha : P k a)
      (hrest : Ascending P (k + 1) rest) : Ascending P n (a :: rest)

namespace Ascending

variable {α : Type} {P Q : Nat → α → Prop} {m n : Nat} {row row' : List α}

/-- A row that ascends from a place ascends from every earlier one. -/
theorem weaken (h : Ascending P n row) (hle : m ≤ n) : Ascending P m row := by
  cases h with
  | nil => exact .nil m
  | cons hle' ha hrest => exact .cons (hle.trans hle') ha hrest

/-- The places of a row inside a longer text. -/
theorem shift (h : Ascending P n row) (hPQ : ∀ k a, P k a → Q (m + k) a) :
    Ascending Q (m + n) row := by
  induction h with
  | nil => exact .nil _
  | cons hle ha _ ih => exact .cons (Nat.add_le_add_left hle m) (hPQ _ _ ha) ih

/-- Behind a row that ends before `m`, another one begins at `m`. -/
theorem append (h : Ascending P n row) (hPQ : ∀ k a, P k a → k < m ∧ Q k a) (hle : n ≤ m)
    (h' : Ascending Q m row') : Ascending Q n (row ++ row') := by
  induction h with
  | nil => exact h'.weaken hle
  | cons hle' ha _ ih =>
    obtain ⟨hless, hq⟩ := hPQ _ _ ha
    exact .cons hle' hq (ih hless)

/-- Every entry of an ascending row has its place. -/
theorem exists_of_mem (h : Ascending P n row) {a : α} (ha : a ∈ row) : ∃ k, P k a := by
  induction h with
  | nil => exact absurd ha (by simp)
  | cons _ hfirst _ ih =>
    rcases List.mem_cons.mp ha with rfl | ha
    · exact ⟨_, hfirst⟩
    · exact ih ha

/-- There are no more entries than places. -/
theorem length_le (h : Ascending P n row) (hbound : ∀ k a, P k a → k < m) (hle : n ≤ m) :
    n + row.length ≤ m := by
  induction h with
  | nil => exact hle
  | cons hle' ha _ ih =>
    have hrest := ih (hbound _ _ ha)
    rw [List.length_cons]
    omega

/-- An ascending row has its places one behind the other. -/
theorem exists_places (h : Ascending P n row) :
    ∃ places : List Nat, places.Pairwise (· < ·) ∧ (∀ k ∈ places, n ≤ k) ∧
      List.Forall₂ P places row := by
  induction h with
  | nil => exact ⟨[], .nil, List.forall_mem_nil _, .nil⟩
  | cons hle ha _ ih =>
    obtain ⟨places, hpairwise, hbehind, hall⟩ := ih
    refine ⟨_ :: places, List.pairwise_cons.mpr ⟨hbehind, hpairwise⟩, ?_, .cons ha hall⟩
    refine List.forall_mem_cons.mpr ⟨hle, fun k hk => ?_⟩
    exact hle.trans (Nat.le_of_succ_le (hbehind k hk))

end Ascending

namespace Lexer

variable {line : Nat}

/-! ## The places in a line -/

/-- A piece stands in its line, at a place that it takes. -/
theorem exists_standsIn_place (line : Nat) (done : List Char) {first : Bool} {c : Char}
    {tail rest : List Char} {p : Piece} (hblank : isBlank c = false)
    (hread : readPiece first c tail = ⟨p, rest⟩) :
    ∃ i, i + rest.length < (c :: tail).length ∧
      StandsIn line (done ++ c :: tail) (done.length + i)
        (Piece.place line (done.length + 1) p) := by
  have hdrop (i : Nat) : (done ++ c :: tail).drop (done.length + i) = (c :: tail).drop i :=
    List.drop_length_add_append i
  cases p with
  | token kind text =>
    have hless := length_readPiece_lt first c tail
    rw [hread] at hless
    refine ⟨0, by rwa [Nat.zero_add], rfl, rfl, ⟨c, tail, hdrop 0, hblank⟩, ?_⟩
    rw [hdrop]
    exact begins_of_readPiece hread
  | fault problem distance =>
    obtain ⟨hbegins, ⟨d, behind, hstart, hd⟩, hprogress⟩ := faultAt_of_readPiece hblank hread
    refine ⟨distance, hprogress, rfl, Nat.add_right_comm _ _ _,
      ⟨d, behind, (hdrop distance).trans hstart, hd⟩, ?_⟩
    rw [hdrop]
    exact hbegins

/-- The pieces of a line stand in it one behind the other. -/
theorem lexPieces_ascending (line : Nat) (first : Bool) (done cs : List Char) :
    Ascending (StandsIn line (done ++ cs)) done.length
      (lexPieces line (done.length + 1) first cs) := by
  generalize hcolumn : done.length + 1 = column
  induction column, first, cs using lexPieces.induct generalizing done with
  | case1 column first =>
    rw [lexPieces]
    exact .nil _
  | case2 column first c tail hblank ih =>
    have hdone : done ++ c :: tail = (done ++ [c]) ++ tail := by simp
    have htail := ih (done ++ [c]) (by rw [List.length_append, ← hcolumn]; rfl)
    rw [lexPieces, if_pos hblank, hdone]
    exact htail.weaken (by simp)
  | case3 column first c tail hblank taken ih =>
    subst hcolumn
    obtain ⟨front, hfront⟩ := readPiece_suffix first c tail
    cases hread : readPiece first c tail with
    | mk p rest =>
      have htaken : taken = ⟨p, rest⟩ := hread
      rw [hread] at hfront
      dsimp only at hfront
      rw [htaken] at ih
      have hlength : (c :: tail).length = front.length + rest.length := by
        rw [← hfront, List.length_append]
      have hrest := ih (done ++ front) (by
        rw [List.length_append]
        dsimp only
        omega)
      rw [List.append_assoc, hfront, List.length_append] at hrest
      obtain ⟨i, hi, hstands⟩ :=
        exists_standsIn_place line done (Bool.not_eq_true _ ▸ hblank) hread
      rw [lexPieces_of_readPiece line _ hblank hread]
      have hle : done.length + i + 1 ≤ done.length + front.length := by omega
      exact .cons (Nat.le_add_right _ _) hstands (hrest.weaken hle)

/-- What a line is cut into stands in it. -/
theorem lexLine_ascending (line : Nat) (pending : Bool) (cs : List Char) :
    Ascending (StandsIn line cs) 0 (lexLine line pending cs).1 := by
  cases hstart : cs.dropWhile isBlank with
  | nil =>
    rw [lexLine_of_blank hstart]
    exact .nil 0
  | cons c tail =>
    obtain ⟨done, hdone, hcolumn⟩ :
        ∃ done, done ++ c :: tail = cs ∧ startColumn cs = done.length + 1 := by
      have hsum := List.takeWhile_append_dropWhile (p := isBlank) (l := cs)
      refine ⟨cs.takeWhile isBlank, by rw [← hstart, hsum], ?_⟩
      have hlength := congrArg List.length hsum
      rw [List.length_append] at hlength
      unfold startColumn
      omega
    have hblank : isBlank c = false := by
      have hstops := List.head?_dropWhile_not isBlank cs
      rw [hstart] at hstops
      simpa using hstops
    have hsingle (t : Token) (hline : t.line = line) (hat : t.column = startColumn cs)
        (hbegins : t.kind.Begins t.text (c :: tail)) :
        StandsIn line cs done.length (.token t) := by
      have hdrop : cs.drop done.length = c :: tail := by
        rw [← hdone]
        exact List.drop_left
      refine ⟨hline, hat.trans hcolumn, ⟨c, tail, hdrop, hblank⟩, ?_⟩
      rw [hdrop]
      exact hbegins
    rw [lexLine_of_start hstart]
    split
    · rename_i hstar
      obtain rfl := eq_of_beq hstar
      exact .cons (Nat.zero_le _) (hsingle _ rfl rfl ⟨String.toList_ofList, .inr rfl⟩) (.nil _)
    · split
      · exact .cons (Nat.zero_le _) (hsingle _ rfl rfl (begins_title _)) (.nil _)
      · split
        · rename_i hplus
          obtain rfl := eq_of_beq hplus
          refine .cons (Nat.zero_le _) (hsingle _ rfl rfl ⟨rfl, rfl⟩) ?_
          have htail := lexPieces_ascending line true (done ++ ['+']) tail
          rw [List.append_assoc, List.singleton_append, hdone, List.length_append,
            List.length_singleton, ← hcolumn] at htail
          rwa [hcolumn] at htail ⊢
        · have hpieces := lexPieces_ascending line true done (c :: tail)
          rw [hdone, ← hcolumn] at hpieces
          exact hpieces.weaken (Nat.zero_le _)

/-! ## The places in a text -/

section Text

variable {before cs : List Char} {i : Nat}

/-- A character of a line is placed in the text by the newlines before its line. -/
theorem place_in_text (hbefore : before.reverse.takeWhile (· != '\n') = []) (hcs : '\n' ∉ cs)
    (behind : List Char) (hi : i ≤ cs.length) :
    lineAt (before ++ (cs ++ behind)) (before.length + i) = 1 + before.count '\n' ∧
      columnAt (before ++ (cs ++ behind)) (before.length + i) = i + 1 := by
  have htake : (before ++ (cs ++ behind)).take (before.length + i) = before ++ cs.take i := by
    rw [List.take_length_add_append, List.take_append_of_le_length hi]
  have hnone : '\n' ∉ cs.take i := fun h => hcs (List.mem_of_mem_take h)
  unfold lineAt columnAt
  rw [htake]
  constructor
  · rw [List.count_append, List.count_eq_zero_of_not_mem hnone, Nat.add_zero]
  · have hall : ∀ c ∈ (cs.take i).reverse, (c != '\n') = true := fun c hc =>
      bne_iff_ne.mpr fun heq => hnone (heq ▸ List.mem_reverse.mp hc)
    rw [List.reverse_append, List.takeWhile_append_of_pos hall, hbefore, List.append_nil,
      List.length_reverse, List.length_take_of_le hi, Nat.add_comm]

/-- What stands in a line stands in the text. -/
theorem standsAt_of_standsIn (hbefore : before.reverse.takeWhile (· != '\n') = [])
    (hcs : '\n' ∉ cs) {behind : List Char} (hbehind : ∀ c ∈ behind.head?, c = '\n') {l : Lexeme}
    (h : StandsIn (1 + before.count '\n') cs i l) :
    i < cs.length ∧ StandsAt (before ++ (cs ++ behind)) (before.length + i) l := by
  obtain ⟨hline, hcolumn, ⟨c, tail, hdrop, hblank⟩, hbegins⟩ := h
  have hi : i < cs.length := by
    by_contra hle
    rw [List.drop_eq_nil_of_le (Nat.le_of_not_lt hle)] at hdrop
    exact absurd hdrop (by simp)
  obtain ⟨hlineAt, hcolumnAt⟩ := place_in_text hbefore hcs behind (Nat.le_of_lt hi)
  have hrest : (before ++ (cs ++ behind)).drop (before.length + i) = cs.drop i ++ behind := by
    rw [List.drop_length_add_append, List.drop_append_of_le_length (Nat.le_of_lt hi)]
  have hc : c ∈ cs := List.mem_of_mem_drop (i := i) (by rw [hdrop]; simp)
  refine ⟨hi, hline.trans hlineAt.symm, hcolumn.trans hcolumnAt.symm, ⟨c, ?_, hblank, ?_⟩, ?_⟩
  · rw [← List.head?_drop, hrest, hdrop]
    rfl
  · exact fun heq => absurd (heq ▸ hc) hcs
  · have hfrom : lineFrom (before ++ (cs ++ behind)) (before.length + i) = cs.drop i := by
      have hall : ∀ d ∈ cs.drop i, (d != '\n') = true := fun d hd =>
        bne_iff_ne.mpr fun heq => hcs (heq ▸ List.mem_of_mem_drop hd)
      have hstops : behind.takeWhile (· != '\n') = [] :=
        takeWhile_eq_nil_iff_head?.mpr fun d hd => by rw [hbehind d hd]; rfl
      unfold lineFrom
      rw [hrest, List.takeWhile_append_of_pos hall, hstops, List.append_nil]
    rw [hfrom]
    exact hbegins

/-- A newline stands behind the last character of its line. -/
theorem standsAt_newline (hbefore : before.reverse.takeWhile (· != '\n') = []) (hcs : '\n' ∉ cs)
    (behind : List Char) :
    StandsAt (before ++ (cs ++ '\n' :: behind)) (before.length + cs.length)
      (.token ⟨.newline, "\n", 1 + before.count '\n', cs.length + 1⟩) := by
  obtain ⟨hline, hcolumn⟩ := place_in_text hbefore hcs ('\n' :: behind) (Nat.le_refl _)
  have hdrop : (before ++ (cs ++ '\n' :: behind)).drop (before.length + cs.length) =
      '\n' :: behind := by
    rw [List.drop_length_add_append, List.drop_left]
  refine ⟨hline.symm, hcolumn.symm, ⟨'\n', ?_, by decide, fun _ => rfl⟩, rfl, ?_⟩
  · rw [← List.head?_drop, hdrop]
    rfl
  · rw [lineFrom, hdrop]
    rfl

/-- The pieces of lines that are part of a text stand in the text. -/
theorem joinLines_ascending (pending : Bool) {lines : List (List Char)} (hne : lines ≠ [])
    (hlines : ∀ cs ∈ lines, '\n' ∉ cs) (before : List Char)
    (hbefore : before.reverse.takeWhile (· != '\n') = []) :
    Ascending (StandsAt (before ++ ['\n'].intercalate lines)) before.length
      (joinLines (1 + before.count '\n') lines
        (lexLines (1 + before.count '\n') pending lines)) := by
  induction lines generalizing pending before with
  | nil => exact absurd rfl hne
  | cons cs rest ih =>
    obtain ⟨hcs, hrest⟩ := List.forall_mem_cons.mp hlines
    have hrow (behind : List Char) (hbehind : ∀ c ∈ behind.head?, c = '\n') :
        Ascending (fun k l => k < before.length + cs.length ∧
            StandsAt (before ++ (cs ++ behind)) k l)
          before.length (lexLine (1 + before.count '\n') pending cs).1 :=
      (lexLine_ascending _ pending cs).shift fun i l hl => by
        obtain ⟨hi, hstands⟩ := standsAt_of_standsIn hbefore hcs hbehind hl
        exact ⟨Nat.add_lt_add_left hi _, hstands⟩
    cases rest with
    | nil =>
      have htext : ['\n'].intercalate [cs] = cs := by simp
      have hpieces : joinLines (1 + before.count '\n') [cs]
          (lexLines (1 + before.count '\n') pending [cs]) =
            (lexLine (1 + before.count '\n') pending cs).1 := List.append_nil _
      have hall : Ascending (StandsAt (before ++ (cs ++ []))) before.length
          ((lexLine (1 + before.count '\n') pending cs).1 ++ []) :=
        (hrow [] (by simp)).append (fun k l hl => hl) (Nat.le_add_right _ _) (.nil _)
      rw [List.append_nil, List.append_nil] at hall
      rwa [hpieces, htext]
    | cons next rest =>
      have htext : ['\n'].intercalate (cs :: next :: rest) =
          cs ++ '\n' :: ['\n'].intercalate (next :: rest) := by simp [List.intercalate]
      rw [lexLines, htext]
      dsimp only
      rw [joinLines]
      have hnext := ih (lexLine (1 + before.count '\n') pending cs).2 (List.cons_ne_nil _ _) hrest
        (before ++ (cs ++ ['\n'])) (by simp)
      have hcount : 1 + (before ++ (cs ++ ['\n'])).count '\n' = 1 + before.count '\n' + 1 := by
        simp [List.count_eq_zero_of_not_mem hcs, Nat.add_assoc]
      have hlength : (before ++ (cs ++ ['\n'])).length = before.length + cs.length + 1 := by
        simp [Nat.add_assoc]
      rw [hcount, hlength, List.append_assoc, List.append_assoc, List.singleton_append] at hnext
      refine (hrow _ (by simp)).append (fun k l hl => hl) (Nat.le_add_right _ _) ?_
      exact .cons (Nat.le_refl _) (standsAt_newline hbefore hcs _) hnext

/-- No line of a text holds a newline. -/
theorem not_mem_of_mem_splitLines (text : List Char) :
    ∀ line ∈ Text.splitLines text, '\n' ∉ line := by
  induction text with
  | nil => simp [Text.splitLines]
  | cons c rest ih =>
    unfold Text.splitLines
    split
    · exact List.forall_mem_cons.mpr ⟨List.not_mem_nil, ih⟩
    · rename_i hc
      cases hlines : Text.splitLines rest with
      | nil => simpa [Text.consHead] using Ne.symm hc
      | cons line more =>
        rw [hlines] at ih
        obtain ⟨hline, hmore⟩ := List.forall_mem_cons.mp ih
        refine List.forall_mem_cons.mpr ⟨fun hmem => ?_, hmore⟩
        rcases List.mem_cons.mp hmem with heq | hmem
        · exact hc heq.symm
        · exact hline hmem

/-- The lexemes of a text stand in it one behind the other. -/
theorem lexemes_ascending (text : String) :
    Ascending (StandsAt text.toList) 0 (lexemes text) := by
  have hall := joinLines_ascending true (Text.splitLines_ne_nil text.toList)
    (not_mem_of_mem_splitLines text.toList) [] rfl
  rwa [List.nil_append, Text.intercalate_splitLines] at hall

end Text

end Lexer

/-! ## The character under the caret -/

namespace Text

/-- A newline in front of a text begins a line of its own. -/
theorem place_newline (cs : List Char) (n : Nat) :
    lineAt ('\n' :: cs) (n + 1) = lineAt cs n + 1 ∧
      columnAt ('\n' :: cs) (n + 1) = columnAt cs n := by
  have hstops : ((cs.take n).reverse ++ ['\n']).takeWhile (· != '\n') =
      (cs.take n).reverse.takeWhile (· != '\n') :=
    takeWhile_append_of_stops (by simp) _
  unfold lineAt columnAt
  rw [List.take_succ_cons, List.count_cons_self, List.reverse_cons, hstops]
  exact ⟨(Nat.add_assoc _ _ _).symm, rfl⟩

/-- Another character in front of a text moves its first line by one column. -/
theorem place_cons {d : Char} (hd : d ≠ '\n') (cs : List Char) (n : Nat) :
    lineAt (d :: cs) (n + 1) = lineAt cs n ∧
      columnAt (d :: cs) (n + 1) = columnAt cs n + if lineAt cs n = 1 then 1 else 0 := by
  have hcount : (d :: cs.take n).count '\n' = (cs.take n).count '\n' :=
    List.count_cons_of_ne hd
  unfold lineAt columnAt
  rw [List.take_succ_cons, hcount, List.reverse_cons]
  refine ⟨rfl, ?_⟩
  by_cases hmem : '\n' ∈ cs.take n
  · obtain ⟨front, back, hsplit⟩ := List.append_of_mem (List.mem_reverse.mpr hmem)
    have hstops (behind : List Char) :
        (front ++ '\n' :: behind).takeWhile (· != '\n') = front.takeWhile (· != '\n') :=
      takeWhile_append_of_stops (by simp) front
    have hpos : 0 < (cs.take n).count '\n' := List.count_pos_iff.mpr hmem
    rw [if_neg (by omega), hsplit, List.append_assoc, List.cons_append, hstops, hstops,
      Nat.add_zero]
  · have hall : ∀ c ∈ (cs.take n).reverse, (c != '\n') = true := fun c hc =>
      bne_iff_ne.mpr fun heq => hmem (heq ▸ List.mem_reverse.mp hc)
    have hself : (cs.take n).reverse.takeWhile (· != '\n') = (cs.take n).reverse :=
      List.takeWhile_eq_self_iff.mpr hall
    rw [if_pos (by rw [List.count_eq_zero_of_not_mem hmem]), List.takeWhile_append_of_pos hall,
      hself]
    simp [hd, Nat.add_assoc]

/-- Behind a newline at the front the lines are counted one further. -/
theorem getElem?_splitLines_newline (rest : List Char) (k : Nat) :
    (splitLines ('\n' :: rest))[k + 1]? = (splitLines rest)[k]? := by
  rw [splitLines, if_pos rfl]
  rfl

/-- Another character in front of a text stands in front of its first line. -/
theorem getElem?_splitLines_cons {d : Char} (hd : d ≠ '\n') {rest row : List Char} {k : Nat}
    (h : (splitLines rest)[k]? = some row) :
    (splitLines (d :: rest))[k]? = some (if k = 0 then d :: row else row) := by
  rw [splitLines, if_neg hd]
  cases hlines : splitLines rest with
  | nil => exact absurd hlines (splitLines_ne_nil rest)
  | cons first more =>
    rw [hlines] at h
    cases k with
    | zero =>
      obtain rfl : first = row := by simpa using h
      rfl
    | succ k => exact h

/-- The line that a character stands in, and its place there. -/
theorem exists_splitLines_of_getElem? {cs : List Char} {n : Nat} {c : Char} (h : cs[n]? = some c)
    (hc : c ≠ '\n') : ∃ row, (splitLines cs)[lineAt cs n - 1]? = some row ∧
      row[columnAt cs n - 1]? = some c := by
  induction cs generalizing n with
  | nil => exact absurd h (by simp)
  | cons d rest ih =>
    cases n with
    | zero =>
      obtain rfl : d = c := by simpa using h
      unfold splitLines
      rw [if_neg hc]
      cases splitLines rest with
      | nil => exact ⟨[d], rfl, rfl⟩
      | cons row more => exact ⟨d :: row, rfl, rfl⟩
    | succ n =>
      rw [List.getElem?_cons_succ] at h
      obtain ⟨row, hrow, hat⟩ := ih h
      have hline : lineAt rest n - 1 + 1 = lineAt rest n :=
        Nat.sub_add_cancel (Nat.le_add_right _ _)
      have hcolumn : columnAt rest n - 1 + 1 = columnAt rest n :=
        Nat.sub_add_cancel (Nat.le_add_right _ _)
      by_cases hd : d = '\n'
      · subst hd
        obtain ⟨hlineAt, hcolumnAt⟩ := place_newline rest n
        rw [hlineAt, hcolumnAt, Nat.add_sub_cancel, ← hline, getElem?_splitLines_newline]
        exact ⟨row, hrow, hat⟩
      · obtain ⟨hlineAt, hcolumnAt⟩ := place_cons hd rest n
        refine ⟨_, by rw [hlineAt]; exact getElem?_splitLines_cons hd hrow, ?_⟩
        rw [hcolumnAt]
        by_cases hfirst : lineAt rest n = 1
        · rw [if_pos hfirst, if_pos (by rw [hfirst]), Nat.add_sub_cancel, ← hcolumn,
            List.getElem?_cons_succ]
          exact hat
        · rw [if_neg hfirst, if_neg (by omega)]
          exact hat

/-- A line is shown with all its characters, except for a carriage return at its end. -/
theorem exists_shownLines_of_getElem? {lines : List (List Char)} {k i : Nat} {row : List Char}
    {c : Char} (hrow : lines[k]? = some row) (h : row[i]? = some c) (hc : c ≠ '\r') :
    ∃ shown, (shownLines lines)[k]? = some shown ∧ shown[i]? = some c := by
  fun_induction shownLines lines generalizing k with
  | case1 => exact absurd hrow (by simp)
  | case2 =>
    cases k with
    | zero =>
      obtain rfl : [] = row := by simpa using hrow
      exact absurd h (by simp)
    | succ k => exact absurd hrow (by simp)
  | case3 last hlast =>
    exact ⟨row, hrow, h⟩
  | case4 first next rest ih =>
    cases k with
    | zero =>
      obtain rfl : first = row := by simpa using hrow
      refine ⟨dropReturn first, rfl, ?_⟩
      unfold dropReturn
      split
      · rename_i hreturn
        have hi : i < first.length := (List.getElem?_eq_some_iff.mp h).1
        have hlast : i ≠ first.length - 1 := by
          rintro rfl
          rw [List.getLast?_eq_getElem?] at hreturn
          exact hc (Option.some.inj (h.symm.trans hreturn))
        rw [List.getElem?_dropLast, if_pos (by omega)]
        exact h
      · exact h
    | succ k => exact ih hrow

end Text

/-- The line that is quoted for a place in a text has a character under the caret. -/
theorem exists_char_under_caret {text : String} {n : Nat} {l : Lexeme}
    (h : StandsAt text.toList n l) (hl : ¬l.IsNewline) (d : Diagnostics) (file : String) :
    ∃ shown c, (d.addSource file text).lineAt? ⟨file, l.line, l.column⟩ = some shown ∧
      shown.toList[l.column - 1]? = some c ∧ Lexer.isBlank c = false := by
  obtain ⟨hline, hcolumn, ⟨c, hc, hblank, hnewline⟩, -⟩ := h
  have hreturn : c ≠ '\r' := by
    rintro rfl
    exact absurd hblank (by decide)
  obtain ⟨line, hat, hchar⟩ := Text.exists_splitLines_of_getElem? hc fun heq => hl (hnewline heq)
  obtain ⟨shown, hshown, hunder⟩ := Text.exists_shownLines_of_getElem? hat hchar hreturn
  refine ⟨String.ofList shown, c, ?_, ?_, hblank⟩
  · obtain ⟨k, hk⟩ : ∃ k, lineAt text.toList n = k + 1 := ⟨_, Nat.add_comm _ _⟩
    rw [hk, Nat.add_sub_cancel] at hshown
    unfold Diagnostics.addSource Diagnostics.lineAt? Text.quotedLines
    rw [hline, hk]
    dsimp only
    rw [Std.ExtTreeMap.getElem?_insert_self]
    simp [hshown]
  · rw [String.toList_ofList, hcolumn]
    exact hunder

/-! ## The faults of a text -/

namespace Tokenized

/-- Continuation marks with nothing to continue are tokens of the text. -/
theorem mem_strays (g : Gathering) (rows : List (List Token)) :
    ∀ t ∈ (rows.foldl gather g).strays,
      t ∈ g.strays ∨ ∃ row ∈ rows, t ∈ row ∧ isPlus t = true := by
  induction rows generalizing g with
  | nil => exact fun t ht => .inl ht
  | cons tokens rest ih =>
    intro t ht
    rcases ih (gather g tokens) t ht with hstray | ⟨row, hrow, hmark⟩
    · unfold gather at hstray
      dsimp only at hstray
      split at hstray
      · rcases List.mem_append.mp hstray with hbefore | hmark
        · exact .inl hbefore
        · exact .inr ⟨tokens, List.mem_cons_self, List.mem_filter.mp hmark⟩
      · exact .inl hstray
    · exact .inr ⟨row, List.mem_cons_of_mem _ hrow, hmark⟩

end Tokenized

namespace Lexer

/-- The pieces of all lines are lexemes of the text. -/
theorem mem_joinLines (line : Nat) (lines : List (List Char)) (pieces : List (List Lexeme))
    {l : Lexeme} (h : l ∈ pieces.flatten) : l ∈ joinLines line lines pieces := by
  induction lines generalizing line pieces with
  | nil => exact h
  | cons cs rest ih =>
    cases rest with
    | nil => exact h
    | cons next rest =>
      cases pieces with
      | nil => exact h
      | cons row more =>
        rw [List.flatten_cons, List.mem_append] at h
        rw [joinLines, List.mem_append]
        exact h.imp id fun hmore => List.mem_cons_of_mem _ (ih _ _ hmore)

end Lexer

section Faults

variable {text : String}

/-- Every piece of a text stands at one of its characters. -/
theorem exists_standsAt_of_mem {l : Lexeme} (h : l ∈ (Lexer.lexText text.toList).flatten) :
    ∃ n, StandsAt text.toList n l :=
  (Lexer.lexemes_ascending text).exists_of_mem (Lexer.mem_joinLines _ _ _ h)

/-- A fault of a text stands at what it reports. -/
theorem exists_standsAt_of_mem_faults {f : LexFault} (h : f ∈ (tokenize text).faults) :
    ∃ n, StandsAt text.toList n (.fault f) := by
  rcases List.mem_append.mp h with h | h
  · obtain ⟨l, hl, hfault⟩ := List.mem_filterMap.mp h
    cases l with
    | token t => exact absurd hfault (by simp [Lexeme.fault?])
    | fault f' =>
      obtain rfl : f' = f := Option.some.inj hfault
      exact exists_standsAt_of_mem hl
  · obtain ⟨t, ht, rfl⟩ := List.mem_map.mp h
    rcases Tokenized.mem_strays _ _ t ht with hnone | ⟨row, hrow, hmem, hplus⟩
    · exact absurd hnone (by simp)
    · obtain ⟨pieces, hpieces, rfl⟩ := List.mem_map.mp hrow
      obtain ⟨l, hl, htoken⟩ := List.mem_filterMap.mp hmem
      cases l with
      | fault f => exact absurd htoken (by simp [Lexeme.token?])
      | token t' =>
        obtain rfl : t' = t := Option.some.inj htoken
        have hkind : t'.kind = .plus := by
          unfold Tokenized.isPlus at hplus
          split at hplus
          · assumption
          · exact absurd hplus (by simp)
        obtain ⟨n, hline, hcolumn, ⟨c, hc, hblank, hnewline⟩, hbegins⟩ :=
          exists_standsAt_of_mem (List.mem_flatten_of_mem hpieces hl)
        refine ⟨n, hline, hcolumn, ⟨c, hc, hblank, fun heq => ?_⟩, ?_⟩
        · exact absurd (hkind.symm.trans (hnewline heq)) (by simp)
        · have hmark : t'.kind.Begins t'.text (lineFrom text.toList n) := hbegins
          rw [hkind] at hmark
          obtain ⟨rest, hrest⟩ := List.head?_eq_some_iff.mp hmark.2
          exact ⟨rest, hrest.symm⟩

/-- Places are exact, and every piece takes a character: a text gives no more tokens and problems
than it has characters; they stand at ascending places, each one with the line and the column of a
character that is no blank, and there the line goes on with what the token is quoted by; and every
fault stands at the construct that it reports, so that the line that is quoted for it has a
character under the caret. -/
theorem places_exact (text : String) :
    (Lexer.lexemes text).length ≤ text.length ∧
      (∃ places : List Nat, places.Pairwise (· < ·) ∧
        List.Forall₂ (StandsAt text.toList) places (Lexer.lexemes text)) ∧
      ∀ f ∈ (tokenize text).faults, (∃ n, StandsAt text.toList n (.fault f)) ∧
        ∀ (d : Diagnostics) (file : String), ∃ shown c,
          (d.addSource file text).lineAt? ⟨file, f.line, f.column⟩ = some shown ∧
            shown.toList[f.column - 1]? = some c ∧ Lexer.isBlank c = false := by
  have hascending := Lexer.lexemes_ascending text
  refine ⟨?_, ?_, fun f hf => ?_⟩
  · have hbound : ∀ k l, StandsAt text.toList k l → k < text.toList.length := by
      intro k l hl
      obtain ⟨c, hc, -⟩ := hl.char
      exact (List.getElem?_eq_some_iff.mp hc).1
    have hlength := hascending.length_le hbound (Nat.zero_le _)
    rwa [Nat.zero_add, String.length_toList] at hlength
  · obtain ⟨places, hpairwise, -, hall⟩ := hascending.exists_places
    exact ⟨places, hpairwise, hall⟩
  · obtain ⟨n, hn⟩ := exists_standsAt_of_mem_faults hf
    exact ⟨⟨n, hn⟩, exists_char_under_caret hn id⟩

end Faults

end FlatNet
