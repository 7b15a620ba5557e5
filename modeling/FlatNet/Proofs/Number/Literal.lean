import FlatNet.Number.Literal
import Mathlib.Data.List.TakeWhile

/-!
# How literals are read

What is read from a text as a literal consists of digits, with a point or without one, and of the
power of ten that follows them, if one does.  The literal is read again from its own characters, and
also from a longer text that begins with it, unless the next character could continue it.
-/

set_option autoImplicit false

namespace FlatNet

/-! ## Rows of characters -/

section Prefix

variable {p : Char → Bool} {rest : List Char}

/-- What is taken from the front ends with the text, if what follows does not go on. -/
theorem takeWhile_append_of_stops (h : ∀ c ∈ rest.head?, p c = false) (cs : List Char) :
    (cs ++ rest).takeWhile p = cs.takeWhile p := by
  induction cs with
  | nil =>
    cases rest with
    | nil => rfl
    | cons c rest => simp [h c rfl]
  | cons c cs ih =>
    simp only [List.cons_append, List.takeWhile_cons, ih]

/-- What is left by dropping from the front keeps what follows, if that does not go on. -/
theorem dropWhile_append_of_stops (h : ∀ c ∈ rest.head?, p c = false) (cs : List Char) :
    (cs ++ rest).dropWhile p = cs.dropWhile p ++ rest := by
  induction cs with
  | nil =>
    cases rest with
    | nil => rfl
    | cons c rest => simp [h c rfl]
  | cons c cs ih =>
    simp only [List.cons_append, List.dropWhile_cons, ih]
    split <;> rfl

end Prefix

section TakeWhile

variable {p : Char → Bool} {cs : List Char}

/-- Nothing is taken exactly if the first character is not taken. -/
theorem takeWhile_eq_nil_iff_head? : cs.takeWhile p = [] ↔ ∀ c ∈ cs.head?, p c = false := by
  cases cs with
  | nil => simp
  | cons c tail => simp [List.takeWhile_cons]

/-- Behind all that is taken there is nothing more to take. -/
theorem takeWhile_dropWhile (p : Char → Bool) (cs : List Char) :
    (cs.dropWhile p).takeWhile p = [] := by
  rw [takeWhile_eq_nil_iff_head?]
  intro c hc
  have hhead := List.head?_dropWhile_not p cs
  rw [Option.mem_def.1 hc] at hhead
  simpa using hhead

/-- Where nothing is taken nothing is dropped. -/
theorem dropWhile_of_takeWhile (h : cs.takeWhile p = []) : cs.dropWhile p = cs := by
  have hsplit := List.takeWhile_append_dropWhile (p := p) (l := cs)
  rwa [h, List.nil_append] at hsplit

end TakeWhile

/-! ## Powers -/

namespace Power

section Read

variable {c : Char} {cs : List Char}

/-- Without its letter there is no power. -/
theorem read_of_ne (hc : ¬ (c = 'e' ∨ c = 'E')) : read (c :: cs) = (none, c :: cs) := if_neg hc

/-- A letter without digits behind it is no power. -/
theorem read_of_no_digits (hdigits : (readSign cs).2.takeWhile Char.isDigit = []) :
    read (c :: cs) = (none, c :: cs) := by
  by_cases hc : c = 'e' ∨ c = 'E'
  · simp only [read, if_pos hc, hdigits]
  · exact read_of_ne hc

/-- A letter with digits behind it, and perhaps a sign between them, is a power. -/
theorem read_of_digits (hc : c = 'e' ∨ c = 'E')
    (hdigits : (readSign cs).2.takeWhile Char.isDigit ≠ []) :
    read (c :: cs) = (some ⟨c, (readSign cs).1, (readSign cs).2.takeWhile Char.isDigit⟩,
      (readSign cs).2.dropWhile Char.isDigit) := by
  obtain ⟨d, ds, heq⟩ := List.exists_cons_of_ne_nil hdigits
  simp only [read, if_pos hc, heq]

end Read

/-- The power has a letter, a sign or none, and digits. -/
structure IsProper (q : Power) : Prop where
  mark : q.mark = 'e' ∨ q.mark = 'E'
  sign : ∀ s ∈ q.sign, s = '+' ∨ s = '-'
  nonempty : q.digits ≠ []
  digits : ∀ d ∈ q.digits, d.isDigit = true

/-- The sign before digits is read, if there is one. -/
theorem readSign_digits {sign : Option Char} {digits : List Char}
    (hsign : ∀ s ∈ sign, s = '+' ∨ s = '-') (hnonempty : digits ≠ [])
    (hdigits : ∀ d ∈ digits, d.isDigit = true) (rest : List Char) :
    readSign (sign.toList ++ digits ++ rest) = (sign, digits ++ rest) := by
  cases sign with
  | some s => exact if_pos (hsign s rfl)
  | none =>
    obtain ⟨d, ds, rfl⟩ := List.exists_cons_of_ne_nil hnonempty
    have hd : d.isDigit = true := hdigits d List.mem_cons_self
    refine if_neg ?_
    rintro (rfl | rfl) <;> exact absurd hd (by decide)

/-- A power takes the digits that follow it. -/
theorem read_chars_append {q : Power} (hq : q.IsProper) (rest : List Char) :
    read (q.chars ++ rest) =
      (some { q with digits := q.digits ++ rest.takeWhile Char.isDigit },
        rest.dropWhile Char.isDigit) := by
  have hread := readSign_digits hq.sign hq.nonempty hq.digits rest
  have htake : (q.digits ++ rest).takeWhile Char.isDigit =
      q.digits ++ rest.takeWhile Char.isDigit := List.takeWhile_append_of_pos hq.digits
  have hdrop : (q.digits ++ rest).dropWhile Char.isDigit = rest.dropWhile Char.isDigit :=
    List.dropWhile_append_of_pos hq.digits
  show read (q.mark :: (q.sign.toList ++ q.digits ++ rest)) = _
  rw [read_of_digits hq.mark, hread, htake, hdrop]
  rw [hread, htake]
  exact fun hnil => hq.nonempty (List.append_eq_nil_iff.1 hnil).1

/-- What is split off as a sign is one. -/
theorem sign_of_mem_readSign (cs : List Char) : ∀ s ∈ (readSign cs).1, s = '+' ∨ s = '-' := by
  intro s hs
  cases cs with
  | nil => exact absurd hs (by simp [readSign])
  | cons c cs =>
    by_cases hc : c = '+' ∨ c = '-'
    · obtain rfl : c = s := by simpa [readSign, hc] using hs
      exact hc
    · exact absurd hs (by simp [readSign, hc])

/-- Where there is no power, nothing is split off. -/
theorem eq_of_read_none {cs rest : List Char} (h : read cs = (none, rest)) : rest = cs := by
  have happend := read_append cs
  rwa [h] at happend

/-- What is split off as a power is one, and no digits follow it. -/
theorem isProper_of_read {cs rest : List Char} {q : Power} (h : read cs = (some q, rest)) :
    q.IsProper ∧ cs = q.chars ++ rest ∧ rest.takeWhile Char.isDigit = [] := by
  have happend := read_append cs
  rw [h] at happend
  cases cs with
  | nil => exact absurd h (by simp [read])
  | cons c cs =>
    by_cases hdigits : (readSign cs).2.takeWhile Char.isDigit = []
    · rw [read_of_no_digits hdigits] at h
      exact absurd h (by simp)
    · by_cases hmark : c = 'e' ∨ c = 'E'
      · rw [read_of_digits hmark hdigits] at h
        obtain ⟨hq, hrest⟩ := Prod.mk.inj h
        obtain rfl := Option.some.inj hq
        have hproper : IsProper ⟨c, (readSign cs).1, (readSign cs).2.takeWhile Char.isDigit⟩ :=
          ⟨hmark, sign_of_mem_readSign cs, hdigits, fun d hd => List.mem_takeWhile_imp hd⟩
        refine ⟨hproper, happend.symm, ?_⟩
        rw [← hrest]
        exact takeWhile_dropWhile _ _
      · rw [read_of_ne hmark] at h
        exact absurd h (by simp)

/-- A proper power is read again from its own characters. -/
theorem read_chars {q : Power} (hq : q.IsProper) : read q.chars = (some q, []) := by
  have hread := read_chars_append hq []
  rw [List.append_nil, List.takeWhile_nil, List.dropWhile_nil, List.append_nil] at hread
  exact hread

end Power

/-! ## Literals without a power -/

namespace Literal

/-- The literal has no power, and only digits, at least one, around or behind its point. -/
structure IsBare (b : Literal) : Prop where
  whole : ∀ c ∈ b.whole, c.isDigit = true
  fraction : ∀ ds, b.fraction = some ds → ∀ c ∈ ds, c.isDigit = true
  nonempty : ¬ (b.whole = [] ∧ b.fraction.getD [] = [])
  power : b.power = none

/-- No digit and no point of the literal follows; a power may follow. -/
structure Ends (b : Literal) (rest : List Char) : Prop where
  digits : rest.takeWhile Char.isDigit = []
  point : b.fraction = none → rest.head? ≠ some '.'

/-- Whether a literal goes on depends on the next character. -/
theorem Ends.congr {b : Literal} {rest rest' : List Char} (h : b.Ends rest)
    (hhead : rest'.head? = rest.head?) : b.Ends rest' where
  digits := by
    rw [takeWhile_eq_nil_iff_head?, hhead, ← takeWhile_eq_nil_iff_head?]
    exact h.digits
  point hnone := by
    rw [hhead]
    exact h.point hnone

/-- The letter of a power is neither a digit nor a point. -/
theorem ends_power (b : Literal) {q : Power} (hq : q.IsProper) (rest : List Char) :
    b.Ends (q.chars ++ rest) where
  digits := by
    rw [takeWhile_eq_nil_iff_head?]
    intro c hc
    obtain rfl : q.mark = c := Option.some.inj hc
    rcases hq.mark with hmark | hmark <;> rw [hmark] <;> rfl
  point _ hpoint := by
    have hmark : q.mark = '.' := Option.some.inj hpoint
    rcases hq.mark with h | h <;> exact absurd (h.symm.trans hmark) (by decide)

/-- A power is written behind the digits of its literal. -/
theorem chars_of_power {b : Literal} (hb : b.power = none) (power : Option Power) :
    Literal.chars { b with power } = b.chars ++ (power.map Power.chars).getD [] := by
  unfold chars
  rw [hb]
  dsimp only [Option.map_none, Option.getD_none]
  rw [List.append_nil]

/-- No literal begins with another character than a digit or a point, or with a bare point. -/
theorem read_eq_none_iff {c : Char} {tail : List Char} :
    read (c :: tail) = none ↔
      c.isDigit = false ∧ (c = '.' → tail.takeWhile Char.isDigit = []) := by
  unfold read
  dsimp only
  cases hdigit : c.isDigit with
  | true => simp [hdigit]
  | false =>
    by_cases hpoint : c = '.'
    · subst hpoint
      simp [readFraction]
    · simp [readFraction, hdigit, hpoint]

/-- Without a point there is no fraction. -/
theorem readFraction_of_ne {cs : List Char} (h : cs.head? ≠ some '.') :
    readFraction cs = (none, cs) := by
  cases cs with
  | nil => rfl
  | cons c tail => exact if_neg fun hc => h (congrArg some hc)

/-- A literal without a power takes the power that follows it. -/
theorem read_chars_append {b : Literal} (hb : b.IsBare) {rest : List Char} (hrest : b.Ends rest) :
    read (b.chars ++ rest) =
      some ({ b with power := (Power.read rest).1 }, (Power.read rest).2) := by
  obtain ⟨whole, fraction, power⟩ := b
  obtain ⟨hwhole, hfraction, hnonempty, rfl⟩ := hb
  have hdrop : rest.dropWhile Char.isDigit = rest := dropWhile_of_takeWhile hrest.digits
  have hbehind : ∀ behind : List Char, behind.takeWhile Char.isDigit = [] →
      readFraction behind = (fraction, rest) →
      read (whole ++ behind) =
        some (⟨whole, fraction, (Power.read rest).1⟩, (Power.read rest).2) := by
    intro behind htake hread
    unfold read
    dsimp only
    rw [List.takeWhile_append_of_pos hwhole, List.dropWhile_append_of_pos hwhole, htake,
      dropWhile_of_takeWhile htake, hread, List.append_nil]
    exact if_neg hnonempty
  cases fraction with
  | none =>
    show read (whole ++ [] ++ [] ++ rest) = _
    rw [List.append_nil, List.append_nil]
    exact hbehind rest hrest.digits (readFraction_of_ne (hrest.point rfl))
  | some ds =>
    have hds : ∀ c ∈ ds, c.isDigit = true := hfraction ds rfl
    show read (whole ++ '.' :: ds ++ [] ++ rest) = _
    rw [List.append_nil, List.append_assoc]
    refine hbehind ('.' :: (ds ++ rest)) rfl ?_
    show (some ((ds ++ rest).takeWhile Char.isDigit), (ds ++ rest).dropWhile Char.isDigit) = _
    rw [List.takeWhile_append_of_pos hds, List.dropWhile_append_of_pos hds, hrest.digits, hdrop,
      List.append_nil]

/-- Only a power can complete a literal without one. -/
theorem read_power_of_read {b l : Literal} (hb : b.IsBare) {rest : List Char} (hrest : b.Ends rest)
    (h : read (b.chars ++ rest) = some (l, [])) : (Power.read rest).2 = [] := by
  rw [read_chars_append hb hrest] at h
  exact (Prod.mk.inj (Option.some.inj h)).2

/-- What is read from a text is a literal without a power and the power behind it. -/
theorem exists_bare_of_read {cs rest : List Char} {l : Literal} (h : read cs = some (l, rest)) :
    ∃ (b : Literal) (behind : List Char), b.IsBare ∧ b.Ends behind ∧ cs = b.chars ++ behind ∧
      l = { b with power := (Power.read behind).1 } ∧ rest = (Power.read behind).2 := by
  have hsplit := List.takeWhile_append_dropWhile (p := Char.isDigit) (l := cs)
  have hwhole : ∀ c ∈ cs.takeWhile Char.isDigit, c.isDigit = true :=
    fun c hc => List.mem_takeWhile_imp hc
  have hdropped := takeWhile_dropWhile Char.isDigit cs
  unfold read at h
  dsimp only at h
  by_cases hpoint : (cs.dropWhile Char.isDigit).head? = some '.'
  · obtain ⟨ds, hds⟩ := List.head?_eq_some_iff.1 hpoint
    have hfraction : readFraction (cs.dropWhile Char.isDigit) =
        (some (ds.takeWhile Char.isDigit), ds.dropWhile Char.isDigit) := by
      rw [hds]
      rfl
    rw [hfraction] at h
    split at h
    · exact absurd h (by simp)
    · rename_i hnonempty
      obtain ⟨hl, hrest⟩ := Prod.mk.inj (Option.some.inj h)
      refine ⟨⟨cs.takeWhile Char.isDigit, some (ds.takeWhile Char.isDigit), none⟩,
        ds.dropWhile Char.isDigit, ⟨hwhole, ?_, hnonempty, rfl⟩, ⟨takeWhile_dropWhile _ _, nofun⟩,
        ?_, hl.symm, hrest.symm⟩
      · intro ds' hds' c hc
        obtain rfl := Option.some.inj hds'
        exact List.mem_takeWhile_imp hc
      · show cs = cs.takeWhile Char.isDigit ++ '.' :: ds.takeWhile Char.isDigit ++ [] ++ _
        rw [List.append_nil, List.append_assoc, List.cons_append, List.takeWhile_append_dropWhile,
          ← hds, hsplit]
  · rw [readFraction_of_ne hpoint] at h
    split at h
    · exact absurd h (by simp)
    · rename_i hnonempty
      obtain ⟨hl, hrest⟩ := Prod.mk.inj (Option.some.inj h)
      refine ⟨⟨cs.takeWhile Char.isDigit, none, none⟩, cs.dropWhile Char.isDigit,
        ⟨hwhole, nofun, hnonempty, rfl⟩, ⟨hdropped, fun _ => hpoint⟩, ?_, hl.symm, hrest.symm⟩
      show cs = cs.takeWhile Char.isDigit ++ [] ++ [] ++ _
      rw [List.append_nil, List.append_nil, hsplit]

/-- A literal takes a power that ends the text. -/
theorem read_chars_power {b : Literal} (hb : b.IsBare) {q : Power} (hq : q.IsProper) :
    read (b.chars ++ q.chars) = some ({ b with power := some q }, []) := by
  have hends : b.Ends q.chars := by
    have hends := ends_power b hq []
    rwa [List.append_nil] at hends
  rw [read_chars_append hb hends, Power.read_chars hq]

/-- A literal is read from its own characters. -/
theorem read_chars {cs rest : List Char} {l : Literal} (h : read cs = some (l, rest)) :
    read l.chars = some (l, []) := by
  obtain ⟨b, behind, hb, -, -, rfl, -⟩ := exists_bare_of_read h
  rw [chars_of_power hb.power]
  cases hpower : (Power.read behind).1 with
  | none =>
    have hends : b.Ends [] := ⟨rfl, fun _ => by simp⟩
    exact read_chars_append hb hends
  | some q => exact read_chars_power hb (Power.isProper_of_read (Prod.ext hpower rfl)).1

end Literal

/-! ## Literals inside longer texts -/

namespace Literal

/-- No literal is continued by what follows. -/
def Stops (rest : List Char) : Prop :=
  ∀ c ∈ rest.head?, c.isDigit = false ∧ c ≠ '.' ∧ c ≠ 'e' ∧ c ≠ 'E'

variable {rest : List Char}

/-- Where no literal is continued no digit follows. -/
theorem Stops.isDigit (h : Stops rest) : ∀ c ∈ rest.head?, c.isDigit = false := by
  intro c hc
  exact (h c hc).1

/-- A fraction is read the same with something behind it that continues no literal. -/
theorem readFraction_append_of_stops (h : Stops rest) (cs : List Char) :
    readFraction (cs ++ rest) = ((readFraction cs).1, (readFraction cs).2 ++ rest) := by
  cases cs with
  | nil =>
    cases rest with
    | nil => rfl
    | cons c rest =>
      obtain ⟨-, hpoint, -⟩ := h c rfl
      simp [readFraction, hpoint]
  | cons c cs =>
    by_cases hc : c = '.'
    · simp [readFraction, hc, takeWhile_append_of_stops h.isDigit,
        dropWhile_append_of_stops h.isDigit]
    · simp [readFraction, hc]

/-- A power that ends the text is also read from a longer one. -/
theorem power_append_of_stops (h : Stops rest) {cs : List Char} (hend : (Power.read cs).2 = []) :
    Power.read (cs ++ rest) = ((Power.read cs).1, rest) := by
  cases cs with
  | nil =>
    cases rest with
    | nil => rfl
    | cons c rest =>
      obtain ⟨-, -, hlower, hupper⟩ := h c rfl
      simp [Power.read, hlower, hupper]
  | cons c cs =>
    by_cases hc : c = 'e' ∨ c = 'E'
    · cases hdigits : (Power.readSign cs).2.takeWhile Char.isDigit with
      | nil => simp [Power.read, hc, hdigits] at hend
      | cons d ds =>
        -- there are digits, so the sign is not looked for in what follows
        have hsign : Power.readSign (cs ++ rest) =
            ((Power.readSign cs).1, (Power.readSign cs).2 ++ rest) := by
          cases cs with
          | nil => simp [Power.readSign] at hdigits
          | cons c' cs =>
            simp only [Power.readSign, List.cons_append]
            split <;> rfl
        simp only [Power.read, hc, hdigits, if_true] at hend
        simp [Power.read, hc, hdigits, hsign, takeWhile_append_of_stops h.isDigit,
          dropWhile_append_of_stops h.isDigit, hend]
    · simp [Power.read, hc] at hend

/-- A literal that makes up a text is also read from a longer one, if nothing continues it. -/
theorem read_append {cs : List Char} {l : Literal} (hread : read cs = some (l, []))
    (h : Stops rest) : read (cs ++ rest) = some (l, rest) := by
  unfold read at hread ⊢
  dsimp only at hread ⊢
  rw [takeWhile_append_of_stops h.isDigit, dropWhile_append_of_stops h.isDigit,
    readFraction_append_of_stops h]
  split at hread
  · simp at hread
  · rename_i hsome
    obtain ⟨rfl, hend⟩ := by simpa using hread
    rw [if_neg hsome, power_append_of_stops h hend]

/-- A literal begins with a digit or a point. -/
theorem exists_eq_cons_of_read {cs : List Char} {l : Literal}
    (hread : read cs = some (l, rest)) :
    ∃ c tail, cs = c :: tail ∧ (c.isDigit || c == '.') = true := by
  cases cs with
  | nil => simp [read, readFraction] at hread
  | cons c tail =>
    refine ⟨c, tail, rfl, ?_⟩
    by_cases hdigit : c.isDigit = true
    · simp [hdigit]
    · by_cases hpoint : c = '.'
      · simp [hpoint]
      · simp [read, hdigit, readFraction, hpoint] at hread

end Literal

/-! ## Values -/

/-- A text that begins like a literal begins with no sign. -/
theorem Power.readSign_of_startsNumber {c : Char} (hc : (c.isDigit || c == '.') = true)
    (tail : List Char) : readSign (c :: tail) = (none, c :: tail) := by
  refine if_neg ?_
  rintro (rfl | rfl) <;> exact absurd hc (by decide)

namespace Binary64

variable {cs rest : List Char} {l : Literal}

/-- A literal without sign stands for its value. -/
theorem ofLiteral?_of_read (h : Literal.read cs = some (l, [])) :
    ofLiteral? cs = some (l.decimal false).toBinary64 := by
  obtain ⟨c, tail, rfl, hc⟩ := Literal.exists_eq_cons_of_read h
  unfold ofLiteral?
  rw [Power.readSign_of_startsNumber hc]
  dsimp only
  rw [h]
  rfl

/-- The characters of a literal that is read have its value. -/
theorem ofLiteral?_chars (h : Literal.read cs = some (l, rest)) :
    ofLiteral? l.chars = some (l.decimal false).toBinary64 :=
  ofLiteral?_of_read (Literal.read_chars h)

end Binary64

end FlatNet
