import FlatNet.Proofs.Number.Literal
import Mathlib.Order.Bounds.Basic

/-!
# The grammar of numerals

A numeral is what may be written for a number: digits, with a point among or behind them or with a
point before them, and a power of ten or none.  The grammar is stated without regard to how a
numeral is read.  The main statements are that a literal is the longest numeral that a text begins
with, `prefixSize_spec`, and that a text has a number exactly if it is a numeral behind a sign or
none, `exists_ofLiteral?_iff`.
-/

set_option autoImplicit false

namespace FlatNet

/-- A row of decimal digits, at least one. -/
structure IsDigits (cs : List Char) : Prop where
  nonempty : cs ≠ []
  digits : ∀ c ∈ cs, c.isDigit = true

/-- A numeral without power of ten. -/
inductive Mantissa : List Char → Prop
  | whole {ds : List Char} (h : IsDigits ds) : Mantissa ds
  | point {ds fs : List Char} (h : IsDigits ds) (hf : ∀ c ∈ fs, c.isDigit = true) :
      Mantissa (ds ++ '.' :: fs)
  | fraction {fs : List Char} (h : IsDigits fs) : Mantissa ('.' :: fs)

/-- A plus, a minus or no sign. -/
def IsSign (sign : Option Char) : Prop := ∀ s ∈ sign, s = '+' ∨ s = '-'

/-- A power of ten: a letter, a sign or none, and digits. -/
inductive Exponent : List Char → Prop
  | mk {mark : Char} {sign : Option Char} {ds : List Char} (hmark : mark = 'e' ∨ mark = 'E')
      (hsign : IsSign sign) (h : IsDigits ds) : Exponent (mark :: (sign.toList ++ ds))

/-- What may be written for a number without sign. -/
inductive Numeral : List Char → Prop
  | plain {m : List Char} (h : Mantissa m) : Numeral m
  | scientific {m p : List Char} (h : Mantissa m) (hp : Exponent p) : Numeral (m ++ p)

/-- What may be written for a number. -/
inductive SignedNumeral : List Char → Prop
  | mk {sign : Option Char} {cs : List Char} (hsign : IsSign sign) (h : Numeral cs) :
      SignedNumeral (sign.toList ++ cs)

/-- A numeral begins the text: a digit, or a point and a digit. -/
def StartsNumeral (cs : List Char) : Prop :=
  ∃ c tail, cs = c :: tail ∧ (c.isDigit = true ∨ c = '.' ∧ ∃ d ∈ tail.head?, d.isDigit = true)

/-- The sizes in bytes of the numerals that a text begins with. -/
def numeralSizes (cs : List Char) : Set Nat :=
  {n | ∃ p, p <+: cs ∧ Numeral p ∧ (String.ofList p).utf8ByteSize = n}

/-- The size in bytes of the literal that is read from a text, 0 if there is none. -/
def Literal.prefixSize (cs : List Char) : Nat :=
  ((read cs).map fun result => (String.ofList result.1.chars).utf8ByteSize).getD 0

/-! ## Parts of literals -/

/-- The powers of ten are written as the grammar has it. -/
theorem exponent_iff {cs : List Char} : Exponent cs ↔ ∃ q : Power, q.IsProper ∧ q.chars = cs := by
  constructor
  · rintro ⟨hmark, hsign, h⟩
    exact ⟨⟨_, _, _⟩, ⟨hmark, hsign, h.nonempty, h.digits⟩, rfl⟩
  · rintro ⟨q, hq, rfl⟩
    exact ⟨hq.mark, hq.sign, hq.nonempty, hq.digits⟩

/-- The literals without power of ten are written as the grammar has it. -/
theorem mantissa_iff {cs : List Char} : Mantissa cs ↔ ∃ b : Literal, b.IsBare ∧ b.chars = cs := by
  constructor
  · intro h
    cases h with
    | whole h =>
      refine ⟨⟨cs, none, none⟩, ⟨h.digits, nofun, fun hnil => h.nonempty hnil.1, rfl⟩, ?_⟩
      simp [Literal.chars]
    | @point ds fs h hf =>
      refine ⟨⟨ds, some fs, none⟩, ⟨h.digits, ?_, fun hnil => h.nonempty hnil.1, rfl⟩, ?_⟩
      · rintro fs' ⟨⟩
        exact hf
      · simp [Literal.chars]
    | @fraction fs h =>
      refine ⟨⟨[], some fs, none⟩, ⟨List.forall_mem_nil _, ?_, fun hnil => h.nonempty hnil.2, rfl⟩,
        ?_⟩
      · rintro fs' ⟨⟩
        exact h.digits
      · simp [Literal.chars]
  · rintro ⟨⟨whole, fraction, power⟩, ⟨hwhole, hfraction, hnonempty, rfl⟩, rfl⟩
    cases fraction with
    | none =>
      have hdigits : IsDigits whole := ⟨fun hnil => hnonempty ⟨hnil, rfl⟩, hwhole⟩
      simpa [Literal.chars] using Mantissa.whole hdigits
    | some fs =>
      have hfs : ∀ c ∈ fs, c.isDigit = true := hfraction fs rfl
      cases whole with
      | nil =>
        have hdigits : IsDigits fs := ⟨fun hnil => hnonempty ⟨rfl, hnil⟩, hfs⟩
        simpa [Literal.chars] using Mantissa.fraction hdigits
      | cons d ds =>
        have hdigits : IsDigits (d :: ds) := ⟨List.cons_ne_nil d ds, hwhole⟩
        simpa [Literal.chars] using Mantissa.point hdigits hfs

namespace Mantissa

variable {m : List Char}

/-- Besides digits there is at most a point. -/
theorem isDigit_or_eq_point (h : Mantissa m) : ∀ c ∈ m, c.isDigit = true ∨ c = '.' := by
  intro c hc
  cases h with
  | whole h => exact .inl (h.digits c hc)
  | point h hf =>
    rcases List.mem_append.1 hc with hc | hc
    · exact .inl (h.digits c hc)
    · exact (List.mem_cons.1 hc).symm.imp (hf c) id
  | fraction h => exact (List.mem_cons.1 hc).symm.imp (h.digits c) id

/-- There is no point among digits. -/
theorem point_not_mem_of_digits {ds : List Char} (h : ∀ c ∈ ds, c.isDigit = true) : '.' ∉ ds :=
  fun hmem => absurd (h '.' hmem) (by decide)

/-- There is at most one point. -/
theorem count_point_le (h : Mantissa m) : m.count '.' ≤ 1 := by
  cases h with
  | whole h =>
    rw [List.count_eq_zero_of_not_mem (point_not_mem_of_digits h.digits)]
    exact Nat.zero_le 1
  | point h hf =>
    rw [List.count_append, List.count_cons_self,
      List.count_eq_zero_of_not_mem (point_not_mem_of_digits h.digits),
      List.count_eq_zero_of_not_mem (point_not_mem_of_digits hf)]
  | fraction h =>
    rw [List.count_cons_self, List.count_eq_zero_of_not_mem (point_not_mem_of_digits h.digits)]

/-- A mantissa begins as a numeral does. -/
theorem startsNumeral (h : Mantissa m) (rest : List Char) : StartsNumeral (m ++ rest) := by
  have hdigits : ∀ {ds : List Char}, IsDigits ds → ∃ d ds', ds = d :: ds' ∧ d.isDigit = true := by
    intro ds h
    obtain ⟨d, ds', rfl⟩ := List.exists_cons_of_ne_nil h.nonempty
    exact ⟨d, ds', rfl, h.digits d List.mem_cons_self⟩
  cases h with
  | whole h =>
    obtain ⟨d, ds, rfl, hd⟩ := hdigits h
    exact ⟨d, ds ++ rest, rfl, .inl hd⟩
  | @point _ fs h hf =>
    obtain ⟨d, ds, rfl, hd⟩ := hdigits h
    exact ⟨d, ds ++ '.' :: fs ++ rest, rfl, .inl hd⟩
  | fraction h =>
    obtain ⟨d, fs, rfl, hd⟩ := hdigits h
    exact ⟨'.', d :: fs ++ rest, rfl, .inr ⟨rfl, d, rfl, hd⟩⟩

/-- A literal's digits and point reach as far as any mantissa does that begins the text. -/
theorem prefix_chars (h : Mantissa m) {b : Literal} {behind : List Char} (hends : b.Ends behind)
    (hbegins : m <+: b.chars ++ behind) : m <+: b.chars := by
  rcases List.prefix_or_prefix_of_prefix hbegins (List.prefix_append b.chars behind) with
    hle | ⟨more, rfl⟩
  · exact hle
  · -- what the mantissa has more would be a digit, or a second point
    cases more with
    | nil => exact ⟨[], by simp⟩
    | cons c more =>
      obtain ⟨rest, hrest⟩ := hbegins
      rw [List.append_assoc] at hrest
      have hbehind : behind = c :: more ++ rest := (List.append_cancel_left hrest).symm
      have hc : c.isDigit = false := by
        have hdigits := takeWhile_eq_nil_iff_head?.1 hends.digits
        exact hdigits c (by rw [hbehind]; rfl)
      have hpoint : c = '.' := by
        rcases h.isDigit_or_eq_point c (by simp) with hdigit | hpoint
        · exact absurd (hc.symm.trans hdigit) (by simp)
        · exact hpoint
      have hfraction : b.fraction ≠ none := fun hnone =>
        hends.point hnone (by rw [hbehind, hpoint]; rfl)
      have hmem : '.' ∈ b.chars := by
        obtain ⟨fs, hfs⟩ := Option.ne_none_iff_exists'.1 hfraction
        simp [Literal.chars, hfs]
      have hcount := h.count_point_le
      have hpos := List.count_pos_iff.2 hmem
      rw [List.count_append, hpoint, List.count_cons_self] at hcount
      omega

end Mantissa

/-! ## The longest numeral -/

/-- A literal is read exactly where a numeral begins the text. -/
theorem startsNumeral_iff {cs : List Char} :
    StartsNumeral cs ↔ ∃ l rest, Literal.read cs = some (l, rest) := by
  have hsome : (∃ l rest, Literal.read cs = some (l, rest)) ↔ Literal.read cs ≠ none := by
    rw [Option.ne_none_iff_exists', Prod.exists]
  rw [hsome]
  cases cs with
  | nil =>
    refine ⟨?_, fun h => absurd rfl h⟩
    rintro ⟨c, tail, hcs, -⟩
    exact absurd hcs (by simp)
  | cons c tail =>
    have hstarts : StartsNumeral (c :: tail) ↔
        c.isDigit = true ∨ c = '.' ∧ ∃ d ∈ tail.head?, d.isDigit = true := by
      constructor
      · rintro ⟨c', tail', hcs, h⟩
        obtain ⟨rfl, rfl⟩ := List.cons.inj hcs
        exact h
      · exact fun h => ⟨c, tail, rfl, h⟩
    rw [hstarts, Ne, Literal.read_eq_none_iff, takeWhile_eq_nil_iff_head?]
    grind

namespace Literal

variable {cs rest : List Char} {l : Literal}

/-- A literal without power of ten is a mantissa. -/
theorem mantissa_of_read (h : read cs = some (l, rest)) (hpower : l.power = none) :
    Mantissa l.chars := by
  obtain ⟨b, behind, hb, -, -, rfl, -⟩ := exists_bare_of_read h
  have hnone : (Power.read behind).1 = none := hpower
  rw [chars_of_power hb.power, hnone]
  exact mantissa_iff.2 ⟨b, hb, (List.append_nil _).symm⟩

/-- A literal is a numeral. -/
theorem numeral_of_read (h : read cs = some (l, rest)) : Numeral l.chars := by
  obtain ⟨b, behind, hb, -, -, rfl, -⟩ := exists_bare_of_read h
  have hmantissa : Mantissa b.chars := mantissa_iff.2 ⟨b, hb, rfl⟩
  rw [chars_of_power hb.power]
  cases hpower : (Power.read behind).1 with
  | none =>
    rw [Option.map_none, Option.getD_none, List.append_nil]
    exact .plain hmantissa
  | some q =>
    have hproper := (Power.isProper_of_read (Prod.ext hpower rfl)).1
    exact .scientific hmantissa (exponent_iff.2 ⟨q, hproper, rfl⟩)

/-- Every numeral that begins a text begins the literal that is read from it. -/
theorem exists_read_of_numeral {p : List Char} (h : Numeral p) (hbegins : p <+: cs) :
    ∃ l rest, read cs = some (l, rest) ∧ p <+: l.chars := by
  have hstarts : StartsNumeral cs := by
    obtain ⟨behind, rfl⟩ := hbegins
    cases h with
    | plain h => exact h.startsNumeral behind
    | scientific h hp =>
      rw [List.append_assoc]
      exact h.startsNumeral _
  obtain ⟨l, rest, hread⟩ := startsNumeral_iff.1 hstarts
  refine ⟨l, rest, hread, ?_⟩
  obtain ⟨b, behind, hb, hends, rfl, rfl, -⟩ := exists_bare_of_read hread
  rw [chars_of_power hb.power]
  cases h with
  | plain h => exact (h.prefix_chars hends hbegins).trans (List.prefix_append _ _)
  | @scientific m p h hp =>
    obtain ⟨more, hmore⟩ := h.prefix_chars hends ((List.prefix_append m p).trans hbegins)
    obtain ⟨after, hafter⟩ := hbegins
    have hpower : p ++ after = more ++ behind := by
      rw [← hmore, List.append_assoc, List.append_assoc] at hafter
      exact List.append_cancel_left hafter
    obtain ⟨q, hq, rfl⟩ := exponent_iff.1 hp
    -- the letter of the power is no part of a literal without power
    obtain rfl : more = [] := by
      cases more with
      | nil => rfl
      | cons c more =>
        obtain rfl : q.mark = c := (List.cons.inj hpower).1
        have hmem : q.mark ∈ b.chars := by rw [← hmore]; simp
        rcases (mantissa_iff.2 ⟨b, hb, rfl⟩).isDigit_or_eq_point _ hmem with hc | hc <;>
          rcases hq.mark with hmark | hmark <;> rw [hmark] at hc <;> exact absurd hc (by decide)
    rw [List.append_nil] at hmore
    rw [List.nil_append] at hpower
    rw [← hpower, Power.read_chars_append hq, ← hmore]
    refine (List.prefix_append_right_inj m).2 ?_
    simp [Power.chars]

end Literal

/-- The beginning of a text has no more bytes than the text. -/
theorem utf8ByteSize_le_of_prefix {cs ds : List Char} (h : cs <+: ds) :
    (String.ofList cs).utf8ByteSize ≤ (String.ofList ds).utf8ByteSize := by
  obtain ⟨more, rfl⟩ := h
  rw [String.ofList_append, String.utf8ByteSize_append]
  omega

/-- Where no literal is read its size is zero. -/
theorem Literal.prefixSize_of_not_read {cs : List Char} (h : read cs = none) :
    prefixSize cs = 0 := by
  rw [prefixSize, h]
  rfl

/-- The size of a literal that is read is that of its characters. -/
theorem Literal.prefixSize_of_read {cs rest : List Char} {l : Literal}
    (h : read cs = some (l, rest)) : prefixSize cs = (String.ofList l.chars).utf8ByteSize := by
  rw [prefixSize, h]
  rfl

/-- What is read as a literal is the longest numeral that the text begins with. -/
theorem prefixSize_spec (cs : List Char) :
    IsGreatest (numeralSizes cs) (Literal.prefixSize cs) ∨
      numeralSizes cs = ∅ ∧ Literal.prefixSize cs = 0 := by
  cases hread : Literal.read cs with
  | none =>
    right
    refine ⟨Set.eq_empty_of_forall_notMem ?_, Literal.prefixSize_of_not_read hread⟩
    rintro n ⟨p, hbegins, hp, -⟩
    obtain ⟨l, rest, hsome, -⟩ := Literal.exists_read_of_numeral hp hbegins
    exact absurd (hread.symm.trans hsome) (by simp)
  | some result =>
    obtain ⟨l, rest⟩ := result
    left
    rw [Literal.prefixSize_of_read hread]
    refine ⟨⟨l.chars, ⟨rest, Literal.chars_append_read hread⟩, Literal.numeral_of_read hread, rfl⟩,
      ?_⟩
    rintro n ⟨p, hbegins, hp, rfl⟩
    obtain ⟨l', rest', hsome, hle⟩ := Literal.exists_read_of_numeral hp hbegins
    obtain ⟨rfl, rfl⟩ := Prod.mk.inj (Option.some.inj (hread.symm.trans hsome))
    exact utf8ByteSize_le_of_prefix hle

/-- A letter without digits behind it begins no power of ten. -/
example : Literal.prefixSize "2.5e-k".toList = 3 := by decide +kernel

/-- Where a numeral begins a text, the literal that is read has characters. -/
theorem startsNumeral_iff_prefixSize_pos {cs : List Char} :
    StartsNumeral cs ↔ 0 < Literal.prefixSize cs := by
  rw [startsNumeral_iff]
  constructor
  · rintro ⟨l, rest, hread⟩
    rw [Literal.prefixSize_of_read hread, Nat.pos_iff_ne_zero, Ne, String.utf8ByteSize_eq_zero_iff,
      String.ofList_eq_empty_iff]
    exact Literal.chars_ne_nil_of_read hread
  · intro hpos
    cases hread : Literal.read cs with
    | none =>
      rw [Literal.prefixSize_of_not_read hread] at hpos
      exact absurd hpos (Nat.lt_irrefl 0)
    | some result => exact ⟨result.1, result.2, rfl⟩

/-! ## Numbers -/

/-- A numeral is read as a literal from its first to its last character. -/
theorem Numeral.exists_read {cs : List Char} (h : Numeral cs) :
    ∃ l, Literal.read cs = some (l, []) := by
  obtain ⟨l, rest, hread, more, hmore⟩ := Literal.exists_read_of_numeral h (List.prefix_refl cs)
  have hlength := congrArg List.length (Literal.chars_append_read hread)
  rw [← hmore] at hlength
  simp only [List.length_append] at hlength
  obtain rfl : rest = [] := List.length_eq_zero_iff.1 (by omega)
  exact ⟨l, hread⟩

/-- A text has a number exactly if it is a numeral behind a sign or none. -/
theorem Binary64.exists_ofLiteral?_iff {cs : List Char} :
    (∃ v, ofLiteral? cs = some v) ↔ SignedNumeral cs := by
  constructor
  · rintro ⟨v, hv⟩
    unfold ofLiteral? at hv
    dsimp only at hv
    split at hv
    · rename_i l hread
      rw [← Power.readSign_append cs, ← Literal.chars_append_read hread, List.append_nil]
      exact ⟨Power.sign_of_mem_readSign cs, Literal.numeral_of_read hread⟩
    · exact absurd hv (by simp)
  · rintro ⟨hsign, h⟩
    rename_i sign cs
    obtain ⟨l, hread⟩ := h.exists_read
    have hsplit : Power.readSign (sign.toList ++ cs) = (sign, cs) := by
      cases sign with
      | some s => exact if_pos (hsign s rfl)
      | none =>
        obtain ⟨c, tail, rfl, hc⟩ := Literal.exists_eq_cons_of_read hread
        exact Power.readSign_of_startsNumber hc tail
    unfold ofLiteral?
    rw [hsplit]
    dsimp only
    rw [hread]
    exact ⟨_, rfl⟩

end FlatNet
