import FlatNet.Expr.Token
import FlatNet.Proofs.Number.Literal
import FlatNet.Text.CharClass
import Mathlib.Data.List.Chain
import Mathlib.Data.List.TakeWhile

/-!
# Tokens that are written and scanned again

A row of legible tokens is scanned from its own spelling if no two tokens that touch run together:
neither words, that is names and numbers, nor two stars.  Conversely whatever can be scanned is
ASCII.  A scan fails at the first place where no token begins, and never for the number of a
literal.
-/

set_option autoImplicit false

namespace FlatNet.Expr.Token

open Text (isAscii)

/-! ## Spelling -/

/-- The blank that is written behind a comma. -/
def gap : Token → List Char
  | comma => [' ']
  | _ => []

/-- The characters of a token without the blank behind it. -/
def chars : Token → List Char
  | number value => value.text.toList
  | name s => s.toList
  | operator op => op.sign.toList
  | opening => ['(']
  | closing => [')']
  | comma => [',']

/-- The characters of a token in a written expression. -/
def spelling (t : Token) : List Char := t.chars ++ t.gap

/-- A name or a number. -/
def isWord : Token → Bool
  | number _ => true
  | name _ => true
  | _ => false

/-- A name as it is scanned: letters, digits and underscores of ASCII, no digit at the
beginning. -/
def IsName (cs : List Char) : Prop :=
  ∃ c tail, cs = c :: tail ∧ startsName c = true ∧ ∀ d ∈ tail, continuesName d = true

/-- The token can be scanned from its own characters. -/
def Legible : Token → Prop
  | number value =>
    ∃ l, Literal.read value.text.toList = some (l, []) ∧ (l.decimal false).toBinary64 = value
  | name s => IsName s.toList
  | _ => True

/-- The tokens do not run together when they touch. -/
def Apart (t u : Token) : Prop :=
  (t.isWord = true → u.isWord = false) ∧ (t = operator .mul → u ≠ operator .mul)

/-- The text does not continue the token. -/
def Stops (t : Token) (rest : List Char) : Prop :=
  match t with
  | number _ => Literal.Stops rest
  | name _ => ∀ c ∈ rest.head?, continuesName c = false
  | operator .mul => ∀ c ∈ rest.head?, c ≠ '*'
  | _ => True

/-- A character that is no letter and no underscore does not begin a name. -/
theorem ne_of_startsName {c d : Char} (h : startsName c = true) (hd : startsName d = false) :
    c ≠ d := by
  rintro rfl
  rw [h] at hd
  exact absurd hd (by simp)

/-- The codes of the digits. -/
theorem code_of_isDigit {c : Char} (h : c.isDigit = true) : 48 ≤ c.toNat ∧ c.toNat ≤ 57 := by
  obtain ⟨hlow, hhigh⟩ := Bool.and_eq_true_iff.1 h
  exact ⟨of_decide_eq_true hlow, of_decide_eq_true hhigh⟩

/-- The codes of the letters. -/
theorem code_of_isAlpha {c : Char} (h : c.isAlpha = true) :
    (65 ≤ c.toNat ∧ c.toNat ≤ 90) ∨ (97 ≤ c.toNat ∧ c.toNat ≤ 122) := by
  rcases Bool.or_eq_true_iff.1 h with hupper | hlower
  · exact .inl (of_decide_eq_true hupper)
  · obtain ⟨hlow, hhigh⟩ := Bool.and_eq_true_iff.1 hlower
    exact .inr ⟨of_decide_eq_true hlow, of_decide_eq_true hhigh⟩

/-- What starts a name is no digit, no point, no star and no blank. -/
theorem startsName_facts {c : Char} (h : startsName c = true) :
    c.isDigit = false ∧ c ≠ '.' ∧ c ≠ '*' ∧ isBlank c = false := by
  refine ⟨?_, ne_of_startsName h rfl, ne_of_startsName h rfl, ?_⟩
  · refine Bool.eq_false_iff.2 fun hdigit => ?_
    have hcode := code_of_isDigit hdigit
    simp only [startsName, Bool.or_eq_true, beq_iff_eq] at h
    rcases h with h | rfl
    · have hletter := code_of_isAlpha h
      omega
    · exact absurd hdigit (by decide)
  · simp [isBlank, ne_of_startsName h (show startsName ' ' = false by rfl),
      ne_of_startsName h (show startsName '\t' = false by rfl),
      ne_of_startsName h (show startsName '\r' = false by rfl),
      ne_of_startsName h (show startsName '\n' = false by rfl)]

/-- What starts a number is no star and no blank. -/
theorem startsNumber_facts {c : Char} (h : (c.isDigit || c == '.') = true) :
    c ≠ '*' ∧ isBlank c = false := by
  refine ⟨?_, ?_⟩
  · rintro rfl
    exact absurd h (by decide)
  · simp only [isBlank, Bool.or_eq_false_iff, beq_eq_false_iff_ne]
    refine ⟨⟨⟨?_, ?_⟩, ?_⟩, ?_⟩ <;> rintro rfl <;> exact absurd h (by decide)

/-- The characters that tokens other than words begin with. -/
def signChars : List Char := ['+', '-', '*', '/', '^', '(', ')', ',']

/-- A sign neither starts nor continues a name or a number, and is no blank. -/
theorem signChar_facts {c : Char} (h : c ∈ signChars) :
    c.isDigit = false ∧ c ≠ '.' ∧ c ≠ 'e' ∧ c ≠ 'E' ∧ startsName c = false ∧
      continuesName c = false ∧ isBlank c = false := by
  simp only [signChars, List.mem_cons, List.not_mem_nil, or_false] at h
  rcases h with rfl | rfl | rfl | rfl | rfl | rfl | rfl | rfl <;> decide

/-- What a legible token begins with. -/
inductive Begins (c : Char) : Token → Prop
  | number {value : Binary64} (h : (c.isDigit || c == '.') = true) : Begins c (number value)
  | name {s : String} (h : startsName c = true) : Begins c (name s)
  | sign {t : Token} (hword : t.isWord = false) (h : c ∈ signChars)
      (hstar : c = '*' → t = operator .mul) : Begins c t

/-- A legible token has characters. -/
theorem exists_spelling_eq_cons {t : Token} (h : t.Legible) :
    ∃ c tail, t.spelling = c :: tail ∧ Begins c t := by
  cases t with
  | number value =>
    obtain ⟨l, hread, -⟩ := h
    obtain ⟨c, tail, htext, hc⟩ := Literal.exists_eq_cons_of_read hread
    exact ⟨c, tail, by simp [spelling, chars, gap, htext], .number hc⟩
  | name s =>
    obtain ⟨c, tail, htext, hc, -⟩ := h
    exact ⟨c, tail, by simp [spelling, chars, gap, htext], .name hc⟩
  | operator op => cases op <;> exact ⟨_, _, rfl, .sign rfl (by decide) (by decide)⟩
  | opening => exact ⟨_, _, rfl, .sign rfl (by decide) (by decide)⟩
  | closing => exact ⟨_, _, rfl, .sign rfl (by decide) (by decide)⟩
  | comma => exact ⟨_, _, rfl, .sign rfl (by decide) (by decide)⟩

/-- No token begins with a blank. -/
theorem Begins.isBlank {c : Char} {t : Token} (h : Begins c t) : isBlank c = false := by
  cases h with
  | number h => exact (startsNumber_facts h).2
  | name h => exact (startsName_facts h).2.2.2
  | sign _ h _ => exact (signChar_facts h).2.2.2.2.2.2

/-- A token that is apart does not continue the one before it. -/
theorem stops_of_apart {t u : Token} (h : t.Apart u) (hu : u.Legible) (rest : List Char) :
    t.Stops (u.spelling ++ rest) := by
  obtain ⟨c, tail, hspelling, hc⟩ := exists_spelling_eq_cons hu
  have hsign : t.isWord = true → c ∈ signChars := by
    intro ht
    have hu := h.1 ht
    cases hc with
    | sign _ h _ => exact h
    | _ => simp [isWord] at hu
  rw [hspelling]
  cases t with
  | number value =>
    intro d hd
    obtain rfl : c = d := by simpa using hd
    obtain ⟨hdigit, hpoint, hlower, hupper, -⟩ := signChar_facts (hsign rfl)
    exact ⟨hdigit, hpoint, hlower, hupper⟩
  | name s =>
    intro d hd
    obtain rfl : c = d := by simpa using hd
    exact (signChar_facts (hsign rfl)).2.2.2.2.2.1
  | operator op =>
    cases op with
    | mul =>
      intro d hd
      obtain rfl : c = d := by simpa using hd
      rintro rfl
      cases hc with
      | number hc => exact absurd rfl (startsNumber_facts hc).1
      | name hc => exact absurd rfl (startsName_facts hc).2.2.1
      | sign _ _ hstar => exact absurd (hstar rfl) (h.2 rfl)
    | _ => trivial
  | _ => trivial

/-- The end of the text continues no token. -/
theorem stops_nil (t : Token) : t.Stops [] := by
  cases t with
  | number value => simp [Stops, Literal.Stops]
  | name s => simp [Stops]
  | operator op => cases op <;> simp [Stops]
  | _ => trivial

/-! ## Scanning what is written -/

/-- A literal that begins a text is its first token. -/
theorem readOne_of_read {c : Char} {tail rest : List Char} {l : Literal}
    (hc : (c.isDigit || c == '.') = true) (h : Literal.read (c :: tail) = some (l, rest)) :
    readOne (c :: tail) = .ok (number (l.decimal false).toBinary64, rest) := by
  simp only [readOne]
  rw [if_pos hc, h]
  dsimp only
  rw [Binary64.ofLiteral?_chars h]

/-- A legible token is read from its characters, unless it is continued. -/
theorem readOne_spelling {t : Token} (h : t.Legible) {rest : List Char} (hrest : t.Stops rest) :
    readOne (t.spelling ++ rest) = .ok (t, t.gap ++ rest) := by
  cases t with
  | number value =>
    obtain ⟨l, hread, hvalue⟩ := h
    obtain ⟨c, tail, htext, hc⟩ := Literal.exists_eq_cons_of_read hread
    have hread := Literal.read_append hread hrest
    simp only [spelling, chars, gap, List.append_nil, List.nil_append]
    rw [htext, List.cons_append] at hread ⊢
    rw [readOne_of_read hc hread, hvalue]
  | name s =>
    obtain ⟨c, tail, htext, hc, htail⟩ := h
    obtain ⟨hdigit, hpoint, -⟩ := startsName_facts hc
    have htake : (tail ++ rest).takeWhile continuesName = tail := by
      rw [takeWhile_append_of_stops hrest, List.takeWhile_eq_self_iff.2 htail]
    have hdrop : (tail ++ rest).dropWhile continuesName = rest := by
      rw [dropWhile_append_of_stops hrest, List.dropWhile_eq_nil_iff.2 htail, List.nil_append]
    simp only [spelling, chars, gap, List.append_nil, List.nil_append, htext, List.cons_append]
    simp only [readOne]
    rw [if_neg (by simp [hdigit, hpoint]), if_pos hc, htake, hdrop, ← htext, String.ofList_toList]
  | operator op =>
    cases op with
    | mul =>
      cases rest with
      | nil => rfl
      | cons c rest =>
        have hc : c ≠ '*' := hrest c rfl
        show readOne ('*' :: c :: rest) = _
        have hsign : readSign? ('*' :: c :: rest) = some (operator .mul, c :: rest) := by
          simp [readSign?, hc]
        simp only [readOne]
        rw [if_neg (by decide), if_neg (by decide), hsign]
        rfl
    | _ => rfl
  | _ => rfl

section Scan

variable {offset : Nat} {c : Char} {tail rest : List Char} {t : Token}

/-- A blank is passed over. -/
theorem scanFrom_of_isBlank (h : isBlank c = true) :
    scanFrom offset (c :: tail) = scanFrom (offset + 1) tail := by
  rw [scanFrom, if_pos h]

/-- A token that is read is scanned at its place, and scanning goes on behind it. -/
theorem scanFrom_of_readOne (h : isBlank c = false) (hread : readOne (c :: tail) = .ok (t, rest)) :
    scanFrom offset (c :: tail) =
      (scanFrom (offset + ((c :: tail).length - rest.length)) rest).map (⟨offset, t⟩ :: ·) := by
  rw [scanFrom, if_neg (by simp [h])]
  split
  · rename_i hfault
    rw [hread] at hfault
    simp at hfault
  · rename_i t' rest' hok
    obtain ⟨rfl, rfl⟩ := by simpa [hread] using hok
    split <;> rename_i heq <;> rw [heq] <;> rfl

/-- The blank behind a comma is passed over. -/
theorem scanFrom_gap (t : Token) (rest : List Char) :
    scanFrom offset (t.gap ++ rest) = scanFrom (offset + t.gap.length) rest := by
  cases t with
  | comma => exact scanFrom_of_isBlank rfl
  | _ => rfl

end Scan

/-- Legible tokens that are apart are scanned from their spelling. -/
theorem exists_scanFrom_flatMap_spelling {ts : List Token} (hlegible : ∀ t ∈ ts, t.Legible)
    (hapart : ts.IsChain Apart) (offset : Nat) :
    ∃ placed, scanFrom offset (ts.flatMap spelling) = .ok placed ∧
      placed.map Placed.token = ts := by
  induction ts generalizing offset with
  | nil => exact ⟨[], by rw [List.flatMap_nil, scanFrom], rfl⟩
  | cons t rest ih =>
    obtain ⟨ht, hrest⟩ := List.forall_mem_cons.1 hlegible
    obtain ⟨hhead, hchain⟩ := List.isChain_cons.1 hapart
    have hstops : t.Stops (rest.flatMap spelling) := by
      cases rest with
      | nil => exact stops_nil t
      | cons u us =>
        rw [List.flatMap_cons]
        exact stops_of_apart (hhead u rfl) (hrest u List.mem_cons_self) _
    obtain ⟨c, tail, hspelling, hbegins⟩ := exists_spelling_eq_cons ht
    have hread := readOne_spelling ht hstops
    rw [List.flatMap_cons]
    rw [hspelling, List.cons_append] at hread ⊢
    rw [scanFrom_of_readOne hbegins.isBlank hread, scanFrom_gap]
    generalize offset + _ + t.gap.length = next
    obtain ⟨placed, hscan, hplaced⟩ := ih hrest hchain next
    rw [hscan]
    exact ⟨⟨offset, t⟩ :: placed, rfl, congrArg (t :: ·) hplaced⟩

/-! ## What can be scanned is ASCII -/

/-- Digits are ASCII. -/
theorem isAscii_of_isDigit {c : Char} (h : c.isDigit = true) : isAscii c = true := by
  have hcode := code_of_isDigit h
  simp only [isAscii, decide_eq_true_eq]
  omega

/-- Letters are ASCII. -/
theorem isAscii_of_isAlpha {c : Char} (h : c.isAlpha = true) : isAscii c = true := by
  have hcode := code_of_isAlpha h
  simp only [isAscii, decide_eq_true_eq]
  omega

/-- What starts a name is ASCII. -/
theorem isAscii_of_startsName {c : Char} (h : startsName c = true) : isAscii c = true := by
  simp only [startsName, Bool.or_eq_true, beq_iff_eq] at h
  rcases h with h | rfl
  · exact isAscii_of_isAlpha h
  · rfl

/-- What continues a name is ASCII. -/
theorem isAscii_of_continuesName {c : Char} (h : continuesName c = true) : isAscii c = true := by
  simp only [continuesName, Char.isAlphanum, Bool.or_eq_true, beq_iff_eq] at h
  rcases h with (h | h) | rfl
  · exact isAscii_of_isAlpha h
  · exact isAscii_of_isDigit h
  · rfl

/-- What is read from the text is ASCII. -/
def ReadsAscii (cs rest : List Char) : Prop :=
  ∃ front, cs = front ++ rest ∧ ∀ c ∈ front, isAscii c = true

/-- Digits that are read are ASCII. -/
theorem readsAscii_takeWhile (cs : List Char) :
    ReadsAscii cs (cs.dropWhile Char.isDigit) :=
  ⟨_, List.takeWhile_append_dropWhile.symm, fun _ hc =>
    isAscii_of_isDigit (List.mem_takeWhile_imp hc)⟩

/-- What is read in two parts is ASCII if both parts are. -/
theorem ReadsAscii.trans {cs ds es : List Char} (h : ReadsAscii cs ds) (h' : ReadsAscii ds es) :
    ReadsAscii cs es := by
  obtain ⟨front, rfl, hfront⟩ := h
  obtain ⟨front', rfl, hfront'⟩ := h'
  exact ⟨front ++ front', by simp, List.forall_mem_append.2 ⟨hfront, hfront'⟩⟩

/-- Where nothing is read there is no character outside ASCII. -/
theorem readsAscii_refl (cs : List Char) : ReadsAscii cs cs :=
  ⟨[], rfl, List.forall_mem_nil _⟩

/-- A single character of ASCII that is read. -/
theorem readsAscii_cons {c : Char} (h : isAscii c = true) (cs : List Char) :
    ReadsAscii (c :: cs) cs := ⟨[c], rfl, List.forall_mem_singleton.2 h⟩

/-- The fraction that is read is ASCII. -/
theorem readsAscii_readFraction (cs : List Char) :
    ReadsAscii cs (Literal.readFraction cs).2 := by
  cases cs with
  | nil => exact readsAscii_refl []
  | cons c cs =>
    by_cases hc : c = '.'
    · subst hc
      exact (readsAscii_cons rfl cs).trans (readsAscii_takeWhile cs)
    · simp only [Literal.readFraction, if_neg hc]
      exact readsAscii_refl _

/-- The sign of a power that is read is ASCII. -/
theorem readsAscii_readSign (cs : List Char) : ReadsAscii cs (Power.readSign cs).2 := by
  cases cs with
  | nil => exact readsAscii_refl []
  | cons c cs =>
    simp only [Power.readSign]
    split
    · rename_i hc
      rcases hc with rfl | rfl <;> exact readsAscii_cons rfl cs
    · exact readsAscii_refl _

/-- The power that is read is ASCII. -/
theorem readsAscii_readPower (cs : List Char) : ReadsAscii cs (Power.read cs).2 := by
  cases cs with
  | nil => exact readsAscii_refl []
  | cons c cs =>
    by_cases hc : c = 'e' ∨ c = 'E'
    · simp only [Power.read, if_pos hc]
      split
      · exact readsAscii_refl _
      · refine ReadsAscii.trans ?_ (readsAscii_takeWhile _)
        refine ReadsAscii.trans ?_ (readsAscii_readSign cs)
        rcases hc with rfl | rfl <;> exact readsAscii_cons rfl cs
    · simp only [Power.read, if_neg hc]
      exact readsAscii_refl _

/-- The literal that is read is ASCII. -/
theorem readsAscii_readLiteral {cs rest : List Char} {l : Literal}
    (h : Literal.read cs = some (l, rest)) : ReadsAscii cs rest := by
  unfold Literal.read at h
  dsimp only at h
  split at h
  · simp at h
  · obtain ⟨-, rfl⟩ := by simpa using h
    exact ((readsAscii_takeWhile cs).trans (readsAscii_readFraction _)).trans
      (readsAscii_readPower _)

/-- The operator or parenthesis that is read is ASCII. -/
theorem readsAscii_readSign? {cs rest : List Char} {t : Token}
    (h : readSign? cs = some (t, rest)) : ReadsAscii cs rest := by
  unfold readSign? at h
  split at h <;> simp only [Option.some.injEq, Prod.mk.injEq, reduceCtorEq] at h
  · obtain ⟨-, rfl⟩ := h
    exact (readsAscii_cons rfl _).trans (readsAscii_cons rfl _)
  all_goals
    obtain ⟨-, rfl⟩ := h
    exact readsAscii_cons rfl _

/-- Every token that is read is ASCII. -/
theorem readsAscii_readOne {cs rest : List Char} {t : Token} (h : readOne cs = .ok (t, rest)) :
    ReadsAscii cs rest := by
  cases cs with
  | nil => simp [readOne] at h
  | cons c tail =>
    simp only [readOne] at h
    split at h
    · split at h
      · simp at h
      · rename_i hread
        split at h
        · obtain ⟨-, rfl⟩ := by simpa using h
          exact readsAscii_readLiteral hread
        · simp at h
    · split at h
      · rename_i hstart
        obtain ⟨-, rfl⟩ := by simpa using h
        refine (readsAscii_cons (isAscii_of_startsName hstart) tail).trans ?_
        exact ⟨_, List.takeWhile_append_dropWhile.symm,
          fun _ hd => isAscii_of_continuesName (List.mem_takeWhile_imp hd)⟩
      · split at h
        · rename_i found hsign
          obtain rfl := by simpa using h
          exact readsAscii_readSign? hsign
        · simp at h

/-- A text that can be cut into tokens is ASCII. -/
theorem isAscii_of_scanFrom {offset : Nat} {cs : List Char} {placed : List Placed}
    (h : scanFrom offset cs = .ok placed) : ∀ c ∈ cs, isAscii c = true := by
  induction offset, cs using scanFrom.induct generalizing placed with
  | case1 offset => exact List.forall_mem_nil _
  | case2 offset c tail hblank ih =>
    rw [scanFrom_of_isBlank hblank] at h
    refine List.forall_mem_cons.2 ⟨?_, ih h⟩
    simp only [isBlank, Bool.or_eq_true, beq_iff_eq] at hblank
    rcases hblank with ((rfl | rfl) | rfl) | rfl <;> rfl
  | case3 offset c tail hblank fault hfault =>
    rw [scanFrom, if_neg hblank] at h
    split at h
    · simp at h
    · rename_i hok
      rw [hfault] at hok
      simp at hok
  | case4 offset c tail hblank t rest hread failure hfailure ih =>
    rw [scanFrom_of_readOne (by simpa using hblank) hread, hfailure] at h
    simp [Except.map] at h
  | case5 offset c tail hblank t rest hread ps hps ih =>
    rw [scanFrom_of_readOne (by simpa using hblank) hread] at h
    obtain ⟨front, hfront, hascii⟩ := readsAscii_readOne hread
    rw [hfront]
    exact List.forall_mem_append.2 ⟨hascii, ih hps⟩

/-! ## What cannot be scanned -/

/-- A literal always has a number: where none can be read, there is no literal. -/
theorem fault_of_readOne {cs : List Char} {fault : Fault} (h : readOne cs = .error fault) :
    (∀ shown, fault ≠ .malformedLiteral shown) ∧
      (fault = .malformedNumber → Literal.read cs = none) := by
  cases cs with
  | nil =>
    obtain rfl := Except.error.inj h
    exact ⟨fun _ => by simp, by simp⟩
  | cons c tail =>
    by_cases hc : (c.isDigit || c == '.') = true
    · cases hread : Literal.read (c :: tail) with
      | none =>
        simp only [readOne] at h
        rw [if_pos hc, hread] at h
        obtain rfl := Except.error.inj h
        exact ⟨fun _ => by simp, fun _ => rfl⟩
      | some result => exact absurd (h.symm.trans (readOne_of_read hc hread)) (by simp)
    · simp only [readOne] at h
      rw [if_neg hc] at h
      split at h
      · exact absurd h (by simp)
      · split at h
        · exact absurd h (by simp)
        · obtain rfl := Except.error.inj h
          exact ⟨fun _ => by simp, by simp⟩

/-- A scan fails where no token begins the rest of the text. -/
theorem exists_readOne_of_scanFrom {offset : Nat} {cs : List Char} {failure : Failure}
    (h : scanFrom offset cs = .error failure) :
    ∃ front rest, cs = front ++ rest ∧ failure.offset = offset + front.length ∧
      readOne rest = .error failure.fault := by
  induction offset, cs using scanFrom.induct generalizing failure with
  | case1 offset => exact absurd h (by simp [scanFrom])
  | case2 offset c tail hblank ih =>
    rw [scanFrom_of_isBlank hblank] at h
    obtain ⟨front, rest, rfl, hoffset, hread⟩ := ih h
    refine ⟨c :: front, rest, rfl, ?_, hread⟩
    rw [hoffset, List.length_cons]
    omega
  | case3 offset c tail hblank fault hfault =>
    rw [scanFrom, if_neg hblank] at h
    split at h
    · rename_i hfault'
      obtain rfl := Except.error.inj h
      exact ⟨[], c :: tail, rfl, rfl, hfault'⟩
    · rename_i hok
      exact absurd (hfault.symm.trans hok) (by simp)
  | case4 offset c tail hblank t rest hread failure' hfailure ih =>
    rw [scanFrom_of_readOne (by simpa using hblank) hread, hfailure] at h
    obtain rfl := Except.error.inj h
    obtain ⟨front, behind, rfl, hoffset, hbehind⟩ := ih hfailure
    obtain ⟨token, htoken, -⟩ := readsAscii_readOne hread
    refine ⟨token ++ front, behind, by rw [htoken, List.append_assoc], ?_, hbehind⟩
    have hlength := congrArg List.length htoken
    simp only [List.length_append] at hlength hoffset ⊢
    omega
  | case5 offset c tail hblank t rest hread ps hps ih =>
    rw [scanFrom_of_readOne (by simpa using hblank) hread, hps] at h
    exact absurd h (by simp [Except.map])

end FlatNet.Expr.Token
