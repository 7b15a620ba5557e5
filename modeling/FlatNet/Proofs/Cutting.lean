import FlatNet.Proofs.Pieces

/-!
# Readers on lines that are cut off

A reader that leaves the end `b` of a line `a ++ b` alone reads the same from `a`.  Nothing that it
looks at but does not take makes a difference, with one exception: behind a name it matters whether
one or two equals signs follow.  An equals sign begins no token, so at the places where tokens begin
a line without faults can be cut into two lines that have the same pieces.
-/

set_option autoImplicit false

namespace FlatNet

/-! ## Rows of characters -/

section Rows

variable {p : Char → Bool} {a b : List Char}

/-- A row that does not reach into the rest is the row of the beginning. -/
theorem takeWhile_cut (h : b.length ≤ ((a ++ b).dropWhile p).length) :
    (a ++ b).takeWhile p = a.takeWhile p ∧ (a ++ b).dropWhile p = a.dropWhile p ++ b := by
  induction a with
  | nil =>
    have hnone : b.takeWhile p = [] := by
      have hsum := congrArg List.length (List.takeWhile_append_dropWhile (p := p) (l := b))
      rw [List.length_append] at hsum
      change b.length ≤ (b.dropWhile p).length at h
      exact List.eq_nil_of_length_eq_zero (by omega)
    have hall := List.takeWhile_append_dropWhile (p := p) (l := b)
    rw [hnone, List.nil_append] at hall
    exact ⟨hnone, hall⟩
  | cons c rest ih =>
    rw [List.cons_append] at h ⊢
    cases hc : p c with
    | true =>
      rw [List.dropWhile_cons_of_pos hc] at h
      obtain ⟨htake, hdrop⟩ := ih h
      rw [List.takeWhile_cons_of_pos hc, List.takeWhile_cons_of_pos hc,
        List.dropWhile_cons_of_pos hc, List.dropWhile_cons_of_pos hc, htake]
      exact ⟨rfl, hdrop⟩
    | false =>
      rw [List.takeWhile_cons_of_neg (by simp [hc]), List.takeWhile_cons_of_neg (by simp [hc]),
        List.dropWhile_cons_of_neg (by simp [hc]), List.dropWhile_cons_of_neg (by simp [hc])]
      exact ⟨rfl, rfl⟩

/-- If nothing is taken from a line, nothing is from its front. -/
theorem takeWhile_eq_nil_of_append (h : (a ++ b).takeWhile p = []) : a.takeWhile p = [] := by
  cases a with
  | nil => rfl
  | cons c rest =>
    cases hc : p c with
    | true =>
      rw [List.cons_append, List.takeWhile_cons_of_pos hc] at h
      exact absurd h (by simp)
    | false => exact List.takeWhile_cons_of_neg (by simp [hc])

/-- What is found behind dropped characters is found behind them in a longer line. -/
theorem mem_head?_dropWhile_append {c : Char} (h : c ∈ (a.dropWhile p).head?) (b : List Char) :
    c ∈ ((a ++ b).dropWhile p).head? := by
  rw [List.dropWhile_append]
  cases ha : a.dropWhile p with
  | nil => exact absurd h (by simp [ha])
  | cons d rest => rwa [ha] at h

/-- A character that is taken in front of a text does not belong to the end of the text. -/
theorem cons_cut {c : Char} {rest r : List Char} (h : c :: rest = r ++ b)
    (hb : b.length ≤ rest.length) : ∃ r', r = c :: r' ∧ rest = r' ++ b := by
  rcases List.cons_eq_append_iff.1 h with ⟨-, rfl⟩ | hcons
  · exact absurd hb (by simp)
  · exact hcons

end Rows

/-! ## Numbers -/

section Numbers

variable {a b rest : List Char}

namespace Power

/-- A sign that leaves the end of the line is read without it. -/
theorem readSign_cut {sign : Option Char} (h : readSign (a ++ b) = (sign, rest))
    (hb : b.length ≤ rest.length) : ∃ r, rest = r ++ b ∧ readSign a = (sign, r) := by
  cases a with
  | nil =>
    cases b with
    | nil =>
      obtain ⟨rfl, rfl⟩ := Prod.mk.inj h
      exact ⟨[], rfl, rfl⟩
    | cons c cs =>
      unfold readSign at h
      rw [List.nil_append] at h
      dsimp only at h
      split at h
      · obtain ⟨-, rfl⟩ := Prod.mk.inj h
        exact absurd hb (by simp)
      · obtain ⟨rfl, rfl⟩ := Prod.mk.inj h
        exact ⟨[], rfl, rfl⟩
  | cons c cs =>
    unfold readSign at h ⊢
    rw [List.cons_append] at h
    dsimp only at h ⊢
    split at h
    · rename_i hsign
      obtain ⟨rfl, rfl⟩ := Prod.mk.inj h
      exact ⟨cs, rfl, if_pos hsign⟩
    · rename_i hsign
      obtain ⟨rfl, rfl⟩ := Prod.mk.inj h
      exact ⟨c :: cs, rfl, if_neg hsign⟩

/-- Behind a sign that no digits follow there are none if the line is cut off. -/
theorem takeWhile_readSign_cut (h : (readSign (a ++ b)).2.takeWhile Char.isDigit = []) :
    (readSign a).2.takeWhile Char.isDigit = [] := by
  cases a with
  | nil => rfl
  | cons c cs =>
    unfold readSign at h ⊢
    rw [List.cons_append] at h
    dsimp only at h ⊢
    split at h
    · rename_i hsign
      rw [if_pos hsign]
      exact takeWhile_eq_nil_of_append h
    · rename_i hsign
      rw [if_neg hsign]
      exact takeWhile_eq_nil_of_append (a := c :: cs) h

/-- A power that leaves the end of the line is read without it. -/
theorem read_cut {power : Option Power} (h : read (a ++ b) = (power, rest))
    (hb : b.length ≤ rest.length) : ∃ r, rest = r ++ b ∧ read a = (power, r) := by
  cases a with
  | nil =>
    have happend := read_append b
    change read b = (power, rest) at h
    rw [h] at happend
    cases power with
    | none => exact ⟨[], happend, rfl⟩
    | some p =>
      have hlength := congrArg List.length happend
      simp [chars] at hlength
      omega
  | cons c cs =>
    by_cases hmark : c = 'e' ∨ c = 'E'
    · cases hsign : readSign (cs ++ b) with
      | mk sign body =>
        cases hdigits : body.takeWhile Char.isDigit with
        | nil =>
          simp only [read, List.cons_append, hmark, if_true, hsign, hdigits] at h
          obtain ⟨rfl, rfl⟩ := Prod.mk.inj h
          refine ⟨c :: cs, rfl, ?_⟩
          have hnone := takeWhile_readSign_cut (a := cs) (b := b) (by rw [hsign]; exact hdigits)
          simp only [read, hmark, if_true, hnone]
        | cons d ds =>
          simp only [read, List.cons_append, hmark, if_true, hsign, hdigits] at h
          obtain ⟨rfl, rfl⟩ := Prod.mk.inj h
          obtain ⟨r, hr, hsign'⟩ := readSign_cut hsign
            (hb.trans (List.length_dropWhile_le Char.isDigit body))
          rw [hr] at hb hdigits ⊢
          obtain ⟨htake, hdrop⟩ := takeWhile_cut hb
          rw [htake] at hdigits
          refine ⟨r.dropWhile Char.isDigit, hdrop, ?_⟩
          simp only [read, hmark, if_true, hsign', hdigits]
    · simp only [read, List.cons_append, hmark, if_false] at h
      obtain ⟨rfl, rfl⟩ := Prod.mk.inj h
      exact ⟨c :: cs, rfl, by simp only [read, hmark, if_false]⟩

/-- Reading a power does not lengthen the text. -/
theorem length_read_le (cs : List Char) : (read cs).2.length ≤ cs.length := by
  have happend := congrArg List.length (read_append cs)
  rw [List.length_append] at happend
  omega

end Power

namespace Literal

/-- A fraction that leaves the end of the line is read without it. -/
theorem readFraction_cut {fraction : Option (List Char)}
    (h : readFraction (a ++ b) = (fraction, rest)) (hb : b.length ≤ rest.length) :
    ∃ r, rest = r ++ b ∧ readFraction a = (fraction, r) := by
  cases a with
  | nil =>
    cases b with
    | nil =>
      obtain ⟨rfl, rfl⟩ := Prod.mk.inj h
      exact ⟨[], rfl, rfl⟩
    | cons c cs =>
      unfold readFraction at h
      rw [List.nil_append] at h
      dsimp only at h
      split at h
      · obtain ⟨-, rfl⟩ := Prod.mk.inj h
        have hle := List.length_dropWhile_le Char.isDigit cs
        rw [List.length_cons] at hb
        omega
      · obtain ⟨rfl, rfl⟩ := Prod.mk.inj h
        exact ⟨[], rfl, rfl⟩
  | cons c cs =>
    unfold readFraction at h ⊢
    rw [List.cons_append] at h
    dsimp only at h ⊢
    split at h
    · rename_i hpoint
      obtain ⟨rfl, rfl⟩ := Prod.mk.inj h
      obtain ⟨htake, hdrop⟩ := takeWhile_cut hb
      exact ⟨cs.dropWhile Char.isDigit, hdrop, by rw [if_pos hpoint, htake]⟩
    · rename_i hpoint
      obtain ⟨rfl, rfl⟩ := Prod.mk.inj h
      exact ⟨c :: cs, rfl, if_neg hpoint⟩

/-- Reading a fraction does not lengthen the text. -/
theorem length_readFraction_le (cs : List Char) : (readFraction cs).2.length ≤ cs.length := by
  have happend := congrArg List.length (readFraction_append cs)
  rw [List.length_append] at happend
  omega

/-- A literal that leaves the end of the line is read without it. -/
theorem read_cut {l : Literal} (h : read (a ++ b) = some (l, rest))
    (hb : b.length ≤ rest.length) : ∃ r, rest = r ++ b ∧ read a = some (l, r) := by
  cases hfraction : readFraction ((a ++ b).dropWhile Char.isDigit) with
  | mk fraction behind =>
    cases hpower : Power.read behind with
    | mk power rest' =>
      have hbehind := length_readFraction_le ((a ++ b).dropWhile Char.isDigit)
      have hpowered := Power.length_read_le behind
      rw [hfraction] at hbehind
      rw [hpower] at hpowered
      dsimp only at hbehind hpowered
      unfold read at h
      dsimp only at h
      rw [hfraction] at h
      dsimp only at h
      rw [hpower] at h
      split at h
      · exact absurd h (by simp)
      · rename_i hsome
        obtain ⟨rfl, rfl⟩ := Prod.mk.inj (Option.some.inj h)
        dsimp only at hb
        obtain ⟨htake, hdrop⟩ := takeWhile_cut (a := a) (b := b) (p := Char.isDigit) (by omega)
        rw [hdrop] at hfraction
        obtain ⟨r, rfl, hfraction'⟩ := readFraction_cut hfraction (by omega)
        obtain ⟨r', hr', hpower'⟩ := Power.read_cut hpower hb
        refine ⟨r', hr', ?_⟩
        rw [htake] at hsome ⊢
        unfold read
        dsimp only
        rw [hfraction']
        dsimp only
        rw [if_neg hsome, hpower']

/-- What is no literal is none if the line is cut off. -/
theorem read_eq_none_of_append (h : read (a ++ b) = none) : read a = none := by
  unfold read at h ⊢
  dsimp only at h ⊢
  split at h
  · rename_i hnone
    obtain ⟨hwhole, hfraction⟩ := hnone
    have hwhole' := takeWhile_eq_nil_of_append hwhole
    have hall : ∀ {cs : List Char}, cs.takeWhile Char.isDigit = [] →
        cs.dropWhile Char.isDigit = cs := by
      intro cs hcs
      have hsum := List.takeWhile_append_dropWhile (p := Char.isDigit) (l := cs)
      rwa [hcs, List.nil_append] at hsum
    rw [hall hwhole] at hfraction
    rw [hall hwhole']
    refine if_pos ⟨hwhole', ?_⟩
    cases a with
    | nil => rfl
    | cons c cs =>
      unfold readFraction at hfraction ⊢
      rw [List.cons_append] at hfraction
      dsimp only at hfraction ⊢
      split at hfraction
      · rename_i hpoint
        rw [if_pos hpoint]
        exact takeWhile_eq_nil_of_append hfraction
      · rename_i hpoint
        rw [if_neg hpoint]
        rfl
  · exact absurd h (by simp)

end Literal

end Numbers

namespace Lexer

open Text (isAlphabetic isAlphanumeric isWordChar trim lowerCase)

section Readers

variable {a b rest : List Char}

/-- A sign and a literal behind it that leave the end of a line alone are read from the line without
it. -/
theorem readSigned_cut {l : Literal}
    (h : Literal.read (Power.readSign (a ++ b)).2 = some (l, rest)) (hb : b.length ≤ rest.length) :
    ∃ r, rest = r ++ b ∧ Literal.read (Power.readSign a).2 = some (l, r) ∧
      (Power.readSign a).1 = (Power.readSign (a ++ b)).1 := by
  cases hsign : Power.readSign (a ++ b) with
  | mk sign body =>
    rw [hsign] at h
    dsimp only at h
    have hlt := Literal.length_rest_lt h
    obtain ⟨r, rfl, hsign'⟩ := Power.readSign_cut hsign (by omega)
    obtain ⟨r', hr', hread⟩ := Literal.read_cut h hb
    rw [hsign']
    exact ⟨r', hr', hread, rfl⟩

/-- A number that leaves the end of a line alone is read from the line without it. -/
theorem readNumber?_cut {result : Except Problem (TokenKind × List Char)}
    (h : readNumber? (a ++ b) = some ⟨result, rest⟩) (hb : b.length ≤ rest.length) :
    ∃ r, rest = r ++ b ∧ readNumber? a = some ⟨result, r⟩ := by
  cases readNumber?_eq_some_iff.1 h with
  | plain hread hrest =>
    obtain ⟨r, rfl, hread', hsign⟩ := readSigned_cut hread hb
    refine ⟨r, rfl, readNumber?_eq_some_iff.2 ?_⟩
    rw [← hsign]
    refine .plain hread' fun c hc => hrest c ?_
    rw [Option.mem_def] at hc
    rw [List.head?_append, hc]
    rfl
  | scaled hread hsuffix hpower =>
    obtain ⟨r, hr, hread', hsign⟩ := readSigned_cut hread (hb.trans (Nat.le_succ _))
    obtain ⟨r', rfl, hr'⟩ := cons_cut hr hb
    refine ⟨r', hr', readNumber?_eq_some_iff.2 ?_⟩
    rw [← hsign]
    exact .scaled hread' hsuffix hpower
  | malformed hread hsuffix hpower =>
    obtain ⟨r, hr, hread', hsign⟩ := readSigned_cut hread (hb.trans (Nat.le_succ _))
    obtain ⟨r', rfl, hr'⟩ := cons_cut hr hb
    refine ⟨r', hr', readNumber?_eq_some_iff.2 ?_⟩
    rw [← hsign]
    exact .malformed hread' hsuffix hpower

/-- What is no number is none if the line is cut off. -/
theorem readNumber?_eq_none_of_append (h : readNumber? (a ++ b) = none) :
    readNumber? a = none := by
  rw [readNumber?_eq] at h ⊢
  rw [Option.map_eq_none_iff] at h ⊢
  cases a with
  | nil => rfl
  | cons c cs =>
    by_cases hsign : c = '+' ∨ c = '-'
    · have hbody : ∀ cs, Power.readSign (c :: cs) = (some c, cs) := fun _ => if_pos hsign
      rw [List.cons_append, hbody] at h
      rw [hbody]
      exact Literal.read_eq_none_of_append h
    · have hbody : ∀ cs, Power.readSign (c :: cs) = (none, c :: cs) := fun _ => if_neg hsign
      rw [List.cons_append, hbody] at h
      rw [hbody]
      exact Literal.read_eq_none_of_append (a := c :: cs) h

/-- A mark before the end of the line is found without the end. -/
theorem readUntil_cut {mark : Char} {text : List Char}
    (h : readUntil mark (a ++ b) = some ⟨text, rest⟩) (hb : b.length ≤ rest.length) :
    ∃ r, rest = r ++ b ∧ readUntil mark a = some ⟨text, r⟩ := by
  unfold readUntil at h
  split at h
  · exact absurd h (by simp)
  · rename_i c behind hdrop
    injection h with h
    injection h with htext hrest
    subst hrest
    obtain ⟨htake, hdrop'⟩ := takeWhile_cut (a := a) (b := b) (p := (· != mark))
      (by rw [hdrop, List.length_cons]; omega)
    obtain ⟨r, ha, hr⟩ := cons_cut (hdrop.symm.trans hdrop') hb
    refine ⟨r, hr, ?_⟩
    unfold readUntil
    rw [ha, ← htext, htake]

/-- A quoted text that leaves the end of the line is read without it. -/
theorem readQuoted_cut {text : List Char} (h : readQuoted (a ++ b) = ⟨.ok text, rest⟩)
    (hb : b.length ≤ rest.length) : ∃ r, rest = r ++ b ∧ readQuoted a = ⟨.ok text, r⟩ := by
  unfold readQuoted at h
  split at h
  · rename_i taken htaken
    obtain ⟨text', rest'⟩ := taken
    injection h with htext hrest
    injection htext with htext
    subst htext hrest
    obtain ⟨r, hr, huntil⟩ := readUntil_cut htaken hb
    refine ⟨r, hr, ?_⟩
    unfold readQuoted
    rw [huntil]
  · injection h with htext
    exact absurd htext (by simp)

/-- An expression in braces that leaves the end of the line is read without it. -/
theorem readBraces_cut {value : String × Expr} (h : readBraces (a ++ b) = ⟨.ok value, rest⟩)
    (hb : b.length ≤ rest.length) : ∃ r, rest = r ++ b ∧ readBraces a = ⟨.ok value, r⟩ := by
  unfold readBraces at h
  split at h
  · rename_i taken htaken
    obtain ⟨text', rest'⟩ := taken
    injection h with hvalue hrest
    subst hrest
    obtain ⟨r, hr, huntil⟩ := readUntil_cut htaken hb
    refine ⟨r, hr, ?_⟩
    unfold readBraces
    rw [huntil, ← hvalue]
  · injection h with hvalue
    exact absurd hvalue (by simp)

/-- A value takes at least one character. -/
theorem length_readValue_lt {cs : List Char} {e : Expr} (h : readValue cs = ⟨.value e, rest⟩) :
    rest.length < cs.length := by
  cases readValue_eq_iff.1 h with
  | braces hbraces => exact Nat.lt_succ_of_le (suffix_of_readBraces hbraces).length_le
  | quoted hquoted _ => exact Nat.lt_succ_of_le (suffix_of_readQuoted hquoted).length_le
  | name hword => exact length_dropWhile_lt (isWordChar_of_startsWord hword)
  | number hnumber _ => exact length_readNumber?_lt hnumber

/-- A value that leaves the end of a line alone is read from the line without it. -/
theorem readValue_cut {e : Expr} (h : readValue (a ++ b) = ⟨.value e, rest⟩)
    (hb : b.length ≤ rest.length) : ∃ r, rest = r ++ b ∧ readValue a = ⟨.value e, r⟩ := by
  cases a with
  | nil => exact absurd (length_readValue_lt h) (Nat.not_lt.2 hb)
  | cons c tail =>
    rw [List.cons_append] at h
    cases readValue_eq_iff.1 h with
    | braces hbraces =>
      obtain ⟨r, hr, hbraces'⟩ := readBraces_cut hbraces hb
      exact ⟨r, hr, ValueRead.eq (.braces hbraces')⟩
    | quoted hquoted hexpression =>
      obtain ⟨r, hr, hquoted'⟩ := readQuoted_cut hquoted hb
      exact ⟨r, hr, ValueRead.eq (.quoted hquoted' hexpression)⟩
    | name hword =>
      obtain ⟨htake, hdrop⟩ := takeWhile_cut (a := c :: tail) (b := b) hb
      refine ⟨(c :: tail).dropWhile isWordChar, hdrop, ?_⟩
      rw [← List.cons_append, htake]
      exact ValueRead.eq (.name hword)
    | number hnumber hvalue =>
      obtain ⟨r, hr, hnumber'⟩ := readNumber?_cut (a := c :: tail) hnumber hb
      exact ⟨r, hr, ValueRead.eq (.number hnumber' hvalue)⟩

/-- A value that starts before the end of the line does so without the end. -/
theorem valueStart?_cut {start : List Char} (h : valueStart? (a ++ b) = some start)
    (hb : b.length ≤ start.length) : ∃ r, start = r ++ b ∧ valueStart? a = some r := by
  unfold valueStart? at h
  split at h
  · exact absurd h (by simp)
  · rename_i behind hsingle hdrop
    injection h with h
    subst h
    have hbehind := List.length_dropWhile_le isGap behind
    obtain ⟨-, hdrop'⟩ := takeWhile_cut (a := a) (b := b) (p := isGap)
      (by rw [hdrop, List.length_cons]; omega)
    obtain ⟨r, ha, rfl⟩ := cons_cut (hdrop.symm.trans hdrop') (by omega)
    obtain ⟨-, hgaps⟩ := takeWhile_cut hb
    refine ⟨r.dropWhile isGap, hgaps, ?_⟩
    unfold valueStart?
    rw [ha]
    split
    · rename_i more heq
      obtain rfl := (List.cons.inj heq).2
      exact absurd rfl (hsingle (more ++ b))
    · rename_i heq
      rw [(List.cons.inj heq).2]
    · rename_i hnone
      exact absurd rfl (hnone r)
  · exact absurd h (by simp)

/-- Without an equals sign there is no value. -/
theorem valueStart?_eq_none {cs : List Char}
    (h : ∀ c ∈ (cs.dropWhile isGap).head?, c ≠ '=') : valueStart? cs = none := by
  unfold valueStart?
  split
  · rfl
  · rename_i heq
    rw [heq] at h
    exact absurd rfl (h '=' rfl)
  · rfl

/-- What continues a word to a path begins with two characters of paths. -/
theorem isPathChar_of_continuesPath {c d : Char} {cs : List Char}
    (h : continuesPath (c :: d :: cs) = true) : isPathChar c = true ∧ isPathChar d = true := by
  unfold continuesPath at h
  dsimp only at h
  simp only [Bool.and_eq_true, Bool.or_eq_true, beq_iff_eq] at h
  obtain ⟨hc, hd⟩ := h
  refine ⟨?_, ?_⟩
  · rcases hc with (rfl | rfl) | rfl <;> decide
  · rcases hd with ((hd | rfl) | rfl) | rfl
    · simp [isPathChar, hd]
    · decide
    · decide
    · decide

/-- What continues a word to a path begins no value. -/
theorem valueStart?_of_continuesPath {cs : List Char} (h : continuesPath cs = true) :
    valueStart? cs = none := by
  unfold continuesPath at h
  split at h
  · rename_i d d' cs
    rw [Bool.and_eq_true] at h
    have hd := h.1
    simp only [Bool.or_eq_true, beq_iff_eq] at hd
    refine valueStart?_eq_none fun c hc => ?_
    rcases hd with (rfl | rfl) | rfl <;> simp [isGap] at hc <;> subst hc <;> decide
  · exact absurd h (by simp)

/-- What continues a cut word to a path continues the whole one. -/
theorem continuesPath_append (h : continuesPath a = true) (b : List Char) :
    continuesPath (a ++ b) = true := by
  unfold continuesPath at h
  split at h
  · exact h
  · exact absurd h (by simp)

/-- Dropping more of the characters drops those that were to be dropped first. -/
theorem dropWhile_dropWhile {p q : Char → Bool} (h : ∀ c, p c = true → q c = true)
    (cs : List Char) : (cs.dropWhile p).dropWhile q = cs.dropWhile q := by
  induction cs with
  | nil => rfl
  | cons c rest ih =>
    cases hc : p c with
    | true => rw [List.dropWhile_cons_of_pos hc, List.dropWhile_cons_of_pos (h c hc), ih]
    | false => rw [List.dropWhile_cons_of_neg (by simp [hc])]

/-- What is taken for a path begins in front of the cut. -/
theorem continuesPath_cut (h : continuesPath (a ++ b) = true)
    (hb : b.length ≤ ((a ++ b).dropWhile isPathChar).length) : continuesPath a = true := by
  cases a with
  | nil =>
    cases b with
    | nil => exact h
    | cons c tail =>
      cases tail with
      | nil => exact h
      | cons d cs =>
        obtain ⟨hc, -⟩ := isPathChar_of_continuesPath h
        exact absurd hb (Nat.not_le.2 (length_dropWhile_lt hc))
  | cons c rest =>
    cases rest with
    | nil =>
      cases b with
      | nil => exact h
      | cons d cs =>
        obtain ⟨hc, hd⟩ := isPathChar_of_continuesPath h
        change _ ≤ ((c :: d :: cs).dropWhile isPathChar).length at hb
        rw [List.dropWhile_cons_of_pos hc] at hb
        exact absurd hb (Nat.not_le.2 (length_dropWhile_lt hd))
    | cons d rest => exact h

/-- A word, or what it begins, is read from the line without its end, if no equals sign stands
behind it. -/
theorem readWord_cut {kind : TokenKind} {text : String}
    (h : readWord (a ++ b) = ⟨.token kind text, rest⟩) (hb : b.length ≤ rest.length)
    (hgap : ∀ c ∈ (rest.dropWhile isGap).head?, c ≠ '=') :
    ∃ r, rest = r ++ b ∧ readWord a = ⟨.token kind text, r⟩ := by
  cases readWord_eq_iff.1 h with
  | definition hstart hvalue =>
    have hlt := length_valueStart?_lt hstart
    have hvalued := length_readValue_lt hvalue
    obtain ⟨htake, hdrop⟩ := takeWhile_cut (a := a) (b := b) (p := isWordChar) (by omega)
    rw [hdrop] at hstart
    obtain ⟨r, rfl, hstart'⟩ := valueStart?_cut hstart (by omega)
    obtain ⟨r', hr', hvalue'⟩ := readValue_cut hvalue hb
    refine ⟨r', hr', ?_⟩
    rw [htake]
    exact WordRead.eq (.definition hstart' hvalue')
  | path _ hpath =>
    have hsame := dropWhile_dropWhile (fun c => isPathChar_of_isWordChar (c := c)) (a ++ b)
    have hle := List.length_dropWhile_le isPathChar ((a ++ b).dropWhile isWordChar)
    rw [hsame] at hle
    obtain ⟨-, hdrop⟩ := takeWhile_cut (a := a) (b := b) (p := isWordChar) (by omega)
    obtain ⟨htake, hdrop'⟩ := takeWhile_cut (a := a) (b := b) (p := isPathChar) hb
    rw [hdrop] at hpath hsame
    have hpath' := continuesPath_cut hpath (by rw [hsame]; exact hb)
    refine ⟨a.dropWhile isPathChar, hdrop', ?_⟩
    rw [htake]
    exact WordRead.eq (.path (valueStart?_of_continuesPath hpath') hpath')
  | identifier _ hpath =>
    obtain ⟨htake, hdrop⟩ := takeWhile_cut (a := a) (b := b) (p := isWordChar) hb
    rw [hdrop] at hpath hgap
    have hnone : valueStart? (a.dropWhile isWordChar) = none :=
      valueStart?_eq_none fun c hc => hgap c (mem_head?_dropWhile_append hc b)
    have hpath' : continuesPath (a.dropWhile isWordChar) = false := by
      refine Bool.eq_false_iff.2 fun hcontinues => ?_
      exact absurd (hpath.symm.trans (continuesPath_append hcontinues b)) (by simp)
    refine ⟨a.dropWhile isWordChar, hdrop, ?_⟩
    rw [htake]
    exact WordRead.eq (.identifier hnone hpath')

/-- Letters stand in words. -/
theorem isWordChar_of_isAlpha {c : Char} (h : c.isAlpha = true) : isWordChar c = true := by
  have hletter : isAlphabetic c = true := by
    rwa [Text.isAlphabetic_of_isAscii (Expr.Token.isAscii_of_isAlpha h)]
  simp [isWordChar, isAlphanumeric, hletter]

/-- The letter behind the point of a command stands in front of the cut. -/
theorem isAlpha_cut (h : (a ++ b).head?.any Char.isAlpha = true)
    (hb : b.length ≤ ((a ++ b).dropWhile isWordChar).length) : a.head?.any Char.isAlpha = true := by
  cases a with
  | nil =>
    cases b with
    | nil => exact h
    | cons d tail => exact absurd hb (Nat.not_le.2 (length_dropWhile_lt (isWordChar_of_isAlpha h)))
  | cons d tail => exact h

/-- A token that leaves the end of a line alone is read from the line without it, if no equals sign
stands behind the token. -/
theorem readPiece_cut {first : Bool} {c : Char} {kind : TokenKind} {text : String}
    (h : readPiece first c (a ++ b) = ⟨.token kind text, rest⟩) (hb : b.length ≤ rest.length)
    (hgap : ∀ d ∈ (rest.dropWhile isGap).head?, d ≠ '=') :
    ∃ r, rest = r ++ b ∧ readPiece first c a = ⟨.token kind text, r⟩ := by
  cases readPiece_eq_iff.1 h with
  | comment =>
    obtain rfl := List.eq_nil_of_length_eq_zero (Nat.le_zero.1 hb)
    rw [List.append_nil]
    exact ⟨[], rfl, PieceRead.eq .comment⟩
  | quoted hquoted =>
    obtain ⟨r, hr, hquoted'⟩ := readQuoted_cut hquoted hb
    exact ⟨r, hr, PieceRead.eq (.quoted hquoted')⟩
  | braces hbraces =>
    obtain ⟨r, hr, hbraces'⟩ := readBraces_cut hbraces hb
    exact ⟨r, hr, PieceRead.eq (.braces hbraces')⟩
  | command hfirst hletter =>
    obtain ⟨htake, hdrop⟩ := takeWhile_cut (a := a) (b := b) hb
    refine ⟨a.dropWhile isWordChar, hdrop, ?_⟩
    rw [htake]
    exact PieceRead.eq (.command hfirst (isAlpha_cut hletter hb))
  | number hnumber =>
    obtain ⟨r, hr, hnumber'⟩ := readNumber?_cut (a := c :: a) (b := b) hnumber hb
    exact ⟨r, hr, PieceRead.eq (.number hnumber')⟩
  | word hstarts hword =>
    obtain ⟨r, hr, hword'⟩ := readWord_cut (a := c :: a) (b := b) hword hb hgap
    exact ⟨r, hr, PieceRead.eq (.word hstarts hword')⟩
  | path hstarts hcommand hnumber =>
    obtain ⟨htake, hdrop⟩ := takeWhile_cut (a := c :: a) (b := b) hb
    have hnumber' := readNumber?_eq_none_of_append (a := c :: a) (b := b) hnumber
    have hcommand' : (c == '.' && first && a.head?.any Char.isAlpha) = false := by
      cases a with
      | nil => simp
      | cons d tail => exact hcommand
    refine ⟨(c :: a).dropWhile isPathChar, hdrop, ?_⟩
    rw [← List.cons_append, htake]
    exact PieceRead.eq (.path hstarts hcommand' hnumber')

end Readers

/-! ## Lines -/

/-- No piece is faulty. -/
def Clean (pieces : List Lexeme) : Prop := ∀ l ∈ pieces, l.fault? = none

/-- An equals sign begins no token. -/
theorem readPiece_equals (first : Bool) (tail : List Char) :
    readPiece first '=' tail = ⟨.fault (.illegalCharacter '=') 0, tail⟩ :=
  PieceRead.eq (.illegal (by decide) (by decide) (by decide)
    (readNumber?_eq_none (by decide) (by decide) (by decide) (by decide)) (by decide) (by decide))

/-- In front of pieces without faults stands no equals sign. -/
theorem ne_equals_of_clean {line column : Nat} {first : Bool} {cs : List Char}
    (h : Clean (lexPieces line column first cs)) :
    ∀ c ∈ (cs.dropWhile isGap).head?, c ≠ '=' := by
  induction column, first, cs using lexPieces.induct with
  | case1 column first => exact fun c hc => absurd hc (by simp)
  | case2 column first c tail hblank ih =>
    rw [lexPieces, if_pos hblank] at h
    cases hgap : isGap c with
    | true =>
      rw [List.dropWhile_cons_of_pos hgap]
      exact ih h
    | false =>
      rw [List.dropWhile_cons_of_neg (by simp [hgap])]
      rintro d hd rfl
      rw [Option.mem_def, List.head?_cons, Option.some.injEq] at hd
      subst hd
      exact absurd hblank (by decide)
  | case3 column first c tail hblank taken ih =>
    have hgap : ¬isGap c = true := by
      intro hgap
      refine hblank ?_
      unfold isBlank
      rw [Bool.or_eq_true]
      exact .inl hgap
    rw [List.dropWhile_cons_of_neg hgap]
    rintro d hd rfl
    rw [Option.mem_def, List.head?_cons, Option.some.injEq] at hd
    subst hd
    rw [lexPieces, if_neg hblank] at h
    dsimp only at h
    rw [readPiece_equals] at h
    exact absurd (h _ List.mem_cons_self) (by simp [Piece.place, Lexeme.fault?])

/-- The tokens of a line stand in it. -/
theorem column_of_mem_lexPieces {line column : Nat} {first : Bool} {cs : List Char} {t : Token}
    (h : Lexeme.token t ∈ lexPieces line column first cs) :
    column ≤ t.column ∧ t.column < column + cs.length := by
  induction column, first, cs using lexPieces.induct with
  | case1 column first =>
    rw [lexPieces] at h
    exact absurd h List.not_mem_nil
  | case2 column first c tail hblank ih =>
    rw [lexPieces, if_pos hblank] at h
    have hbounds := ih h
    rw [List.length_cons]
    omega
  | case3 column first c tail hblank taken ih =>
    rw [lexPieces, if_neg hblank] at h
    dsimp only at h
    rcases List.mem_cons.1 h with heq | hmem
    · have hcolumn : t.column = column := by
        change _ = Piece.place line column taken.result at heq
        cases hresult : taken.result with
        | token kind text =>
          rw [hresult] at heq
          injection heq with heq
          rw [heq]
        | fault problem distance =>
          rw [hresult] at heq
          exact absurd heq (by simp [Piece.place])
      rw [hcolumn, List.length_cons]
      omega
    · have hbounds := ih hmem
      have hlt : taken.rest.length < (c :: tail).length := length_readPiece_lt first c tail
      omega

/-- The first piece of a line without faults is a token, and what it leaves is without faults. -/
theorem exists_token_of_clean {line column : Nat} {first : Bool} {c : Char} {tail : List Char}
    (hblank : ¬isBlank c = true) (h : Clean (lexPieces line column first (c :: tail))) :
    ∃ kind text rest, readPiece first c tail = ⟨.token kind text, rest⟩ ∧
      Clean (lexPieces line (column + ((c :: tail).length - rest.length)) false rest) := by
  cases hread : readPiece first c tail with
  | mk result rest =>
    rw [lexPieces_of_readPiece line column hblank hread] at h
    obtain ⟨hhead, hrest⟩ := List.forall_mem_cons.1 h
    cases result with
    | token kind text => exact ⟨kind, text, rest, rfl, hrest⟩
    | fault problem distance => exact absurd hhead (by simp [Piece.place, Lexeme.fault?])

/-- A token that does not begin where its line begins is given by what the first piece leaves. -/
theorem mem_behind_first {line column : Nat} {first : Bool} {c : Char} {tail rest : List Char}
    {p : Piece} {t : Token} (hblank : ¬isBlank c = true)
    (hread : readPiece first c tail = ⟨p, rest⟩)
    (ht : Lexeme.token t ∈ lexPieces line column first (c :: tail)) (hlt : column < t.column) :
    Lexeme.token t ∈ lexPieces line (column + ((c :: tail).length - rest.length)) false rest := by
  rw [lexPieces_of_readPiece line column hblank hread] at ht
  rcases List.mem_cons.1 ht with heq | hmem
  · cases p with
    | token kind text =>
      rw [Lexeme.token.inj heq] at hlt
      exact absurd hlt (Nat.lt_irrefl _)
    | fault problem distance => exact absurd heq (by simp [Piece.place])
  · exact hmem

/-- A line without faults can be cut where a token begins. -/
theorem lexPieces_cut {line column : Nat} {first : Bool} {a b : List Char}
    (hclean : Clean (lexPieces line column first (a ++ b)))
    (hcut : ∃ t, Lexeme.token t ∈ lexPieces line column first (a ++ b) ∧
      t.column = column + a.length) :
    lexPieces line column first (a ++ b) = lexPieces line column first a ++
      lexPieces line (column + a.length) (first && (lexPieces line column first a).isEmpty) b := by
  have hempty : ∀ (column : Nat) (first : Bool), lexPieces line column first b =
      lexPieces line column first [] ++
        lexPieces line (column + 0) (first && (lexPieces line column first []).isEmpty) b := by
    intro column first
    rw [lexPieces]
    simp
  obtain ⟨t, ht, hcolumn⟩ := hcut
  generalize hcs : a ++ b = cs at hclean ht
  induction column, first, cs using lexPieces.induct generalizing a with
  | case1 column first =>
    rw [lexPieces] at ht
    exact absurd ht List.not_mem_nil
  | case2 column first c tail hblank ih =>
    cases a with
    | nil =>
      rw [← hcs]
      exact hempty column first
    | cons d rest =>
      rw [List.cons_append] at hcs
      obtain ⟨rfl, rfl⟩ := List.cons.inj hcs
      rw [lexPieces, if_pos hblank] at hclean ht
      rw [List.length_cons] at hcolumn ⊢
      have hlength : column + (rest.length + 1) = column + 1 + rest.length := by omega
      rw [lexPieces, if_pos hblank, lexPieces, if_pos hblank, hlength]
      exact ih (by omega) rfl hclean ht
  | case3 column first c tail hblank taken =>
    rename_i ih
    cases a with
    | nil =>
      rw [← hcs]
      exact hempty column first
    | cons d front =>
      rw [List.cons_append] at hcs
      obtain ⟨rfl, rfl⟩ := List.cons.inj hcs
      rw [List.length_cons] at hcolumn
      obtain ⟨kind, text, rest, hread, hrest⟩ := exists_token_of_clean hblank hclean
      have htaken : taken = ⟨.token kind text, rest⟩ := hread
      rw [htaken] at ih
      -- the cut is not the beginning of this token, so the token lies in front of it
      have hbehind := mem_behind_first hblank hread ht (by omega)
      have hbounds := column_of_mem_lexPieces hbehind
      have hlt := length_readPiece_lt first d (front ++ b)
      rw [hread] at hlt
      rw [List.length_cons, List.length_append] at hbounds hlt
      dsimp only at hlt
      obtain ⟨r, rfl, hread'⟩ := readPiece_cut hread (by omega) (ne_equals_of_clean hrest)
      rw [List.length_append] at hbounds hlt
      have hplace : (d :: (front ++ b)).length - (r ++ b).length =
          (d :: front).length - r.length := by
        rw [← List.cons_append, List.length_append, List.length_append, Nat.add_sub_add_right]
      have hcolumn' : column + ((d :: front).length - r.length) + r.length =
          column + (d :: front).length := by
        rw [List.length_cons]
        omega
      have hend : t.column = column + ((d :: front).length - r.length) + r.length := by
        rw [hcolumn', List.length_cons]
        exact hcolumn
      rw [lexPieces_of_readPiece line column hblank hread,
        lexPieces_of_readPiece line column hblank hread']
      dsimp only at ih
      rw [hplace] at hrest hbehind ih ⊢
      rw [ih hend rfl hrest hbehind, hcolumn']
      simp

end Lexer

end FlatNet
