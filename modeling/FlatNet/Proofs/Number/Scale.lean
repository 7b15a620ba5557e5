import FlatNet.Number.Scale
import FlatNet.Proofs.Expr.Scanner

/-!
# Literals with suffixes, expanded and read again

A text with its suffixes expanded is read by a reader that knows no suffixes.  What that reader
takes for one literal need not have been one: the power that stands for a suffix is continued by
digits behind the suffix.  `read_normalizeScales` says that this is the only way in which an
expanded text can become a literal that the text itself was not.  Reading that longer literal does
not change the text again: `normalizeScales_normalizeScales`.
-/

set_option autoImplicit false

namespace FlatNet

/-! ## Expanded suffixes -/

/-- What stands for a power of ten is one of the suffixes. -/
theorem mem_scaleSuffixes {c : Char} {e : Int} (h : scaleExponent? c = some e) :
    (c, e) ∈ scaleSuffixes := by
  obtain ⟨before, behind, hsuffixes, -⟩ := List.lookup_eq_some_iff.1 h
  rw [hsuffixes]
  exact List.mem_append_right _ List.mem_cons_self

/-- A power of ten as it stands for a suffix. -/
def suffixPower (e : Int) : Power where
  mark := 'e'
  sign := if e < 0 then some '-' else none
  digits := (toString e.natAbs).toList

/-- A suffix stands for a power. -/
theorem suffixPower_of_scaleExponent? {c : Char} {e : Int} (h : scaleExponent? c = some e) :
    (suffixPower e).IsProper ∧ (suffixPower e).chars = exponentChars e := by
  have hall : ∀ suffix ∈ scaleSuffixes, (suffixPower suffix.2).digits ≠ [] ∧
      (suffixPower suffix.2).digits.all Char.isDigit = true ∧
      (suffixPower suffix.2).chars = exponentChars suffix.2 := by decide +kernel
  obtain ⟨hnonempty, hdigits, hchars⟩ := hall (c, e) (mem_scaleSuffixes h)
  refine ⟨⟨.inl rfl, fun s hs => .inr ?_, hnonempty, List.all_eq_true.1 hdigits⟩, hchars⟩
  unfold suffixPower at hs
  dsimp only at hs
  split at hs
  · exact (Option.some.inj hs).symm
  · exact absurd hs (by simp)

section Scaled

variable {l : Literal}

/-- A literal at the end of the text stays as it is. -/
theorem scaledLiteral_nil (l : Literal) : scaledLiteral l [] = (l.chars, []) := by
  unfold scaledLiteral
  cases l.power <;> rfl

/-- A literal with a power of its own stays as it is. -/
theorem scaledLiteral_of_power (h : l.power ≠ none) (rest : List Char) :
    scaledLiteral l rest = (l.chars, rest) := by
  unfold scaledLiteral
  cases hpower : l.power with
  | none => exact absurd hpower h
  | some q => rfl

/-- A suffix behind the digits is written as its power of ten. -/
theorem scaledLiteral_of_suffix (h : l.power = none) {c : Char} {e : Int}
    (hc : scaleExponent? c = some e) (rest : List Char) :
    scaledLiteral l (c :: rest) = (l.chars ++ exponentChars e, rest) := by
  unfold scaledLiteral
  rw [h]
  dsimp only
  rw [hc]

/-- What is no suffix behind the digits stays as it is. -/
theorem scaledLiteral_of_not_suffix {c : Char} (hc : scaleExponent? c = none) (rest : List Char) :
    scaledLiteral l (c :: rest) = (l.chars, c :: rest) := by
  unfold scaledLiteral
  cases l.power with
  | none =>
    dsimp only
    rw [hc]
  | some q => rfl

/-- Writing a suffix as a power brings in no characters but those of powers. -/
theorem mem_scaledLiteral {rest : List Char} {d : Char}
    (h : d ∈ (scaledLiteral l rest).1 ++ (scaledLiteral l rest).2) :
    d ∈ l.chars ++ rest ∨ ∃ suffix ∈ scaleSuffixes, d ∈ exponentChars suffix.2 := by
  unfold scaledLiteral at h
  split at h
  · rename_i c behind _
    split at h
    · rename_i e hc
      rw [List.append_assoc, List.mem_append, List.mem_append] at h
      rcases h with hchars | hexponent | hbehind
      · exact .inl (List.mem_append_left _ hchars)
      · exact .inr ⟨(c, e), mem_scaleSuffixes hc, hexponent⟩
      · exact .inl (List.mem_append_right _ (List.mem_cons_of_mem c hbehind))
    · exact .inl h
  · exact .inl h

end Scaled

section Normalize

variable {cs : List Char}

/-- Behind a character that binds a literal none is looked for. -/
theorem normalizeScalesFrom_false (c : Char) (tail : List Char) :
    normalizeScalesFrom false (c :: tail) = c :: normalizeScalesFrom (!bindsLiteral c) tail := by
  rw [normalizeScalesFrom]
  rfl

/-- A literal at the front is expanded, and none is looked for directly behind it. -/
theorem normalizeScales_of_read {rest : List Char} {l : Literal}
    (h : Literal.read cs = some (l, rest)) :
    normalizeScales cs =
      (scaledLiteral l rest).1 ++ normalizeScalesFrom false (scaledLiteral l rest).2 := by
  obtain ⟨c, tail, rfl, -⟩ := Literal.exists_eq_cons_of_read h
  unfold normalizeScales
  rw [normalizeScalesFrom, if_pos rfl]
  split
  · rename_i l' rest' h'
    obtain ⟨rfl, rfl⟩ := Prod.mk.inj (Option.some.inj (h.symm.trans h'))
    rfl
  · rename_i h'
    exact absurd (h.symm.trans h') (by simp)

/-- A character that begins no literal stays as it is. -/
theorem normalizeScales_of_not_read {c : Char} {tail : List Char}
    (h : Literal.read (c :: tail) = none) :
    normalizeScales (c :: tail) = c :: normalizeScalesFrom (!bindsLiteral c) tail := by
  unfold normalizeScales
  rw [normalizeScalesFrom, if_pos rfl]
  split
  · rename_i l' rest' h'
    exact absurd (h.symm.trans h') (by simp)
  · rfl

/-- Expanding suffixes keeps the first character. -/
theorem head?_normalizeScalesFrom (free : Bool) (cs : List Char) :
    (normalizeScalesFrom free cs).head? = cs.head? := by
  cases cs with
  | nil => rw [normalizeScalesFrom]
  | cons c tail =>
    cases free with
    | false => rw [normalizeScalesFrom_false]; rfl
    | true =>
      show (normalizeScales (c :: tail)).head? = _
      cases h : Literal.read (c :: tail) with
      | none => rw [normalizeScales_of_not_read h]; rfl
      | some result =>
        obtain ⟨l, rest⟩ := result
        obtain ⟨d, ds, hchars⟩ := List.exists_cons_of_ne_nil (Literal.chars_ne_nil_of_read h)
        have happend := Literal.chars_append_read h
        rw [hchars, List.cons_append] at happend
        have hscaled : ∃ more, (scaledLiteral l rest).1 = d :: more := by
          unfold scaledLiteral
          rw [hchars]
          split
          · split
            · exact ⟨_, rfl⟩
            · exact ⟨_, rfl⟩
          · exact ⟨_, rfl⟩
        obtain ⟨more, hmore⟩ := hscaled
        rw [normalizeScales_of_read h, hmore]
        exact congrArg some (List.cons.inj happend).1

/-- What stands in an expanded text stands in the text or in the power for a suffix. -/
theorem mem_normalizeScalesFrom {free : Bool} {d : Char} (h : d ∈ normalizeScalesFrom free cs) :
    d ∈ cs ∨ ∃ suffix ∈ scaleSuffixes, d ∈ exponentChars suffix.2 := by
  fun_induction normalizeScalesFrom free cs with
  | case1 => exact .inl h
  | case2 c tail l rest hread ih =>
    have happend := Literal.chars_append_read hread
    have hscaled : ∀ d ∈ (scaledLiteral l rest).1 ++ (scaledLiteral l rest).2, d ∈ c :: tail ∨
        ∃ suffix ∈ scaleSuffixes, d ∈ exponentChars suffix.2 := by
      intro d hd
      rw [← happend]
      exact mem_scaledLiteral hd
    rcases List.mem_append.1 h with hfront | hbehind
    · exact hscaled d (List.mem_append_left _ hfront)
    · rcases ih hbehind with hrest | hexponent
      · exact hscaled d (List.mem_append_right _ hrest)
      · exact .inr hexponent
  | case3 c tail _ ih | case4 _ c tail _ ih =>
    rcases List.mem_cons.1 h with rfl | htail
    · exact .inl List.mem_cons_self
    · exact (ih htail).imp_left (List.mem_cons_of_mem c)

/-- Expanding suffixes puts no sign and no digits where a power could have been and was not. -/
theorem read_power_normalizeScalesFrom (hnone : (Power.read cs).1 = none) :
    Power.read (normalizeScalesFrom false cs) = (none, normalizeScalesFrom false cs) := by
  cases cs with
  | nil =>
    rw [normalizeScalesFrom]
    rfl
  | cons c tail =>
    rw [normalizeScalesFrom_false]
    by_cases hmark : c = 'e' ∨ c = 'E'
    · have hdigits : (Power.readSign tail).2.takeWhile Char.isDigit = [] := by
        by_contra hdigits
        rw [Power.read_of_digits hmark hdigits] at hnone
        exact absurd hnone (by simp)
      have hbinds : bindsLiteral c = true := by
        rcases hmark with rfl | rfl <;> rfl
      refine Power.read_of_no_digits ?_
      rw [hbinds]
      show (Power.readSign (normalizeScalesFrom false tail)).2.takeWhile Char.isDigit = []
      cases tail with
      | nil =>
        rw [normalizeScalesFrom]
        rfl
      | cons d more =>
        rw [normalizeScalesFrom_false]
        by_cases hsign : d = '+' ∨ d = '-'
        · simp only [Power.readSign, if_pos hsign] at hdigits ⊢
          rwa [takeWhile_eq_nil_iff_head?, head?_normalizeScalesFrom,
            ← takeWhile_eq_nil_iff_head?]
        · simp only [Power.readSign, if_neg hsign] at hdigits ⊢
          rw [takeWhile_eq_nil_iff_head?] at hdigits ⊢
          exact hdigits
    · exact Power.read_of_ne hmark

/-- No literal is looked for directly behind a digit. -/
theorem bindsLiteral_of_isDigit {c : Char} (hc : c.isDigit = true) : bindsLiteral c = true := by
  unfold bindsLiteral Text.isWordChar
  rw [Text.isAlphanumeric_of_isAscii (Expr.Token.isAscii_of_isDigit hc), Char.isAlphanum, hc,
    Bool.or_true]
  rfl

/-- What expands to digits behind a literal are digits. -/
theorem normalizeScalesFrom_eq_self
    (h : ∀ d ∈ normalizeScalesFrom false cs, d.isDigit = true) :
    normalizeScalesFrom false cs = cs := by
  induction cs with
  | nil => rw [normalizeScalesFrom]
  | cons c tail ih =>
    rw [normalizeScalesFrom_false] at h ⊢
    have hdigit : c.isDigit = true := h c List.mem_cons_self
    rw [bindsLiteral_of_isDigit hdigit] at h ⊢
    exact congrArg (c :: ·) (ih fun d hd => h d (List.mem_cons_of_mem c hd))

/-- Only the empty text is expanded to the empty text. -/
theorem eq_nil_of_normalizeScalesFrom (h : normalizeScalesFrom false cs = []) : cs = [] := by
  have hhead := head?_normalizeScalesFrom false cs
  rw [h] at hhead
  exact List.head?_eq_none_iff.1 hhead.symm

/-! ### Literals that an expanded text is -/

section Whole

variable {b l : Literal} (hb : b.IsBare)

include hb

/-- Nothing follows the power of a literal, if nothing follows it in the expanded text. -/
theorem eq_nil_of_read_power {q : Power} (hq : q.IsProper) {rest : List Char}
    (hrest : rest.takeWhile Char.isDigit = [])
    (h : Literal.read (b.chars ++ (q.chars ++ normalizeScalesFrom false rest)) = some (l, [])) :
    rest = [] := by
  have hkept : (normalizeScalesFrom false rest).takeWhile Char.isDigit = [] := by
    rw [takeWhile_eq_nil_iff_head?, head?_normalizeScalesFrom, ← takeWhile_eq_nil_iff_head?]
    exact hrest
  have hend := Literal.read_power_of_read hb (Literal.ends_power b hq _) h
  rw [Power.read_chars_append hq, dropWhile_of_takeWhile hkept] at hend
  exact eq_nil_of_normalizeScalesFrom hend

/-- The power that stands for a suffix takes the digits that follow, and nothing else. -/
theorem digits_of_read_suffix {c : Char} {e : Int} (hc : scaleExponent? c = some e)
    {rest : List Char}
    (h : Literal.read (b.chars ++ exponentChars e ++ normalizeScalesFrom false rest) =
      some (l, [])) :
    (∀ d ∈ rest, d.isDigit = true) ∧ normalizeScalesFrom false rest = rest := by
  obtain ⟨hq, hchars⟩ := suffixPower_of_scaleExponent? hc
  rw [← hchars, List.append_assoc] at h
  have hend := Literal.read_power_of_read hb (Literal.ends_power b hq _) h
  rw [Power.read_chars_append hq] at hend
  have hdigits := List.dropWhile_eq_nil_iff.1 hend
  have hsame := normalizeScalesFrom_eq_self hdigits
  rw [hsame] at hdigits
  exact ⟨hdigits, hsame⟩

/-- What does not continue a literal does not continue it in the expanded text either. -/
theorem eq_nil_of_read_plain {rest : List Char} (hrest : b.Ends rest)
    (hpower : (Power.read rest).1 = none)
    (h : Literal.read (b.chars ++ normalizeScalesFrom false rest) = some (l, [])) :
    rest = [] := by
  have hkept := hrest.congr (head?_normalizeScalesFrom false rest)
  have hend := Literal.read_power_of_read hb hkept h
  rw [read_power_normalizeScalesFrom hpower] at hend
  exact eq_nil_of_normalizeScalesFrom hend

end Whole

/-- A point without digits behind it stays one. -/
theorem read_normalizeScales_eq_none {c : Char} {tail : List Char}
    (h : Literal.read (c :: tail) = none) : Literal.read (normalizeScales (c :: tail)) = none := by
  obtain ⟨hdigit, hpoint⟩ := Literal.read_eq_none_iff.1 h
  rw [normalizeScales_of_not_read h, Literal.read_eq_none_iff]
  refine ⟨hdigit, fun hc => ?_⟩
  rw [takeWhile_eq_nil_iff_head?, head?_normalizeScalesFrom, ← takeWhile_eq_nil_iff_head?]
  exact hpoint hc

/-- A text whose suffixes have been expanded is one literal only if the text itself is one, or if it
is a literal with a suffix, and digits behind that. -/
theorem read_normalizeScales {c : Char} {tail : List Char} {l' : Literal}
    (h : Literal.read (normalizeScales (c :: tail)) = some (l', [])) :
    ∃ l rest, Literal.read (c :: tail) = some (l, rest) ∧
      (rest = [] ∧ normalizeScales (c :: tail) = l.chars ∨
        ∃ suffix e behind, rest = suffix :: behind ∧ l.power = none ∧
          scaleExponent? suffix = some e ∧ (∀ d ∈ behind, d.isDigit = true) ∧
          normalizeScales (c :: tail) = l.chars ++ exponentChars e ++ behind) := by
  cases hread : Literal.read (c :: tail) with
  | none => exact absurd (h.symm.trans (read_normalizeScales_eq_none hread)) (by simp)
  | some result =>
    obtain ⟨l, rest⟩ := result
    refine ⟨l, rest, rfl, ?_⟩
    have hnormal := normalizeScales_of_read hread
    obtain ⟨b, behind, hb, hends, -, hl, hrest⟩ := Literal.exists_bare_of_read hread
    have hall : rest = [] → normalizeScales (c :: tail) = l.chars := by
      rintro rfl
      rw [hnormal, scaledLiteral_nil, normalizeScalesFrom, List.append_nil]
    cases hpower : Power.read behind with
    | mk power behind' =>
      rw [hpower] at hl hrest
      dsimp only at hl hrest
      subst hrest
      have hchars : l.chars = b.chars ++ (power.map Power.chars).getD [] := by
        rw [hl, Literal.chars_of_power hb.power]
      have hlpower : l.power = power := by rw [hl]
      cases power with
      | some q =>
        obtain ⟨hq, -, hstops⟩ := Power.isProper_of_read hpower
        rw [hnormal, scaledLiteral_of_power (by rw [hlpower]; simp), hchars, List.append_assoc] at h
        have hnil := eq_nil_of_read_power hb hq hstops h
        exact .inl ⟨hnil, hall hnil⟩
      | none =>
        obtain rfl : rest = behind := Power.eq_of_read_none hpower
        replace hchars : l.chars = b.chars := by rwa [Option.map_none, Option.getD_none,
          List.append_nil] at hchars
        cases rest with
        | nil => exact .inl ⟨rfl, hall rfl⟩
        | cons suffix more =>
          cases hsuffix : scaleExponent? suffix with
          | some e =>
            rw [scaledLiteral_of_suffix hlpower hsuffix] at hnormal
            rw [hnormal, hchars] at h
            obtain ⟨hdigits, hmore⟩ := digits_of_read_suffix hb hsuffix h
            rw [hmore] at hnormal
            exact .inr ⟨suffix, e, more, rfl, hlpower, hsuffix, hdigits, hnormal⟩
          | none =>
            rw [hnormal, scaledLiteral_of_not_suffix hsuffix, hchars] at h
            exact absurd (eq_nil_of_read_plain hb hends (by rw [hpower]) h) (List.cons_ne_nil _ _)

/-! ### Expanding twice -/

/-- No literal begins among or right behind digits that none began with. -/
theorem normalizeScalesFrom_false_digits (cs : List Char) :
    normalizeScalesFrom false cs =
      cs.takeWhile Char.isDigit ++ normalizeScalesFrom false (cs.dropWhile Char.isDigit) := by
  induction cs with
  | nil => simp [normalizeScalesFrom]
  | cons c tail ih =>
    cases hc : c.isDigit with
    | false => simp [hc]
    | true =>
      rw [normalizeScalesFrom_false, bindsLiteral_of_isDigit hc, Bool.not_true, ih]
      simp [hc]

section Twice

variable {b : Literal} (hb : b.IsBare)

include hb

/-- A literal with a power stays, whatever follows: digits only continue its power. -/
theorem normalizeScales_of_power {q : Power} (hq : q.IsProper) (rest : List Char) :
    normalizeScales (b.chars ++ (q.chars ++ rest)) =
      b.chars ++ (q.chars ++ normalizeScalesFrom false rest) := by
  have hread := Literal.read_chars_append hb (Literal.ends_power b hq rest)
  rw [Power.read_chars_append hq] at hread
  rw [normalizeScales_of_read hread, scaledLiteral_of_power (by simp),
    Literal.chars_of_power hb.power, normalizeScalesFrom_false_digits rest]
  simp [Power.chars]

/-- A literal that neither a power nor a suffix follows stays. -/
theorem normalizeScales_of_plain {rest : List Char} (hrest : b.Ends rest)
    (hpower : (Power.read rest).1 = none) (hsuffix : ∀ c ∈ rest.head?, scaleExponent? c = none) :
    normalizeScales (b.chars ++ rest) = b.chars ++ normalizeScalesFrom false rest := by
  have hread := Literal.read_chars_append hb hrest
  have hbehind : (Power.read rest).2 = rest := Power.eq_of_read_none (Prod.ext hpower rfl)
  rw [hpower, hbehind, ← hb.power] at hread
  rw [normalizeScales_of_read hread]
  cases rest with
  | nil => rw [scaledLiteral_nil]
  | cons c more => rw [scaledLiteral_of_not_suffix (hsuffix c rfl)]

end Twice

/-- What stands for a literal is one without a power, with a power behind it unless neither a power
nor a suffix follows. -/
theorem exists_scaledLiteral_eq {l : Literal} {rest : List Char}
    (hread : Literal.read cs = some (l, rest)) :
    ∃ b : Literal, b.IsBare ∧
      ((∃ (q : Power) (behind : List Char), q.IsProper ∧
          scaledLiteral l rest = (b.chars ++ q.chars, behind)) ∨
        b.Ends rest ∧ (Power.read rest).1 = none ∧
          (∀ c ∈ rest.head?, scaleExponent? c = none) ∧
          scaledLiteral l rest = (b.chars, rest)) := by
  obtain ⟨b, behind, hb, hends, -, rfl, rfl⟩ := Literal.exists_bare_of_read hread
  refine ⟨b, hb, ?_⟩
  have hchars := Literal.chars_of_power hb.power (Power.read behind).1
  cases hpower : Power.read behind with
  | mk power rest =>
    rw [hpower] at hchars
    cases power with
    | some q =>
      obtain ⟨hq, -, -⟩ := Power.isProper_of_read hpower
      left
      refine ⟨q, rest, hq, ?_⟩
      rw [scaledLiteral_of_power (by simp), hchars]
      simp
    | none =>
      obtain rfl : rest = behind := Power.eq_of_read_none hpower
      simp only [Option.map_none, Option.getD_none, List.append_nil] at hchars
      cases rest with
      | nil =>
        right
        refine ⟨hends, by rw [hpower], by simp, ?_⟩
        rw [scaledLiteral_nil, hchars]
      | cons c more =>
        cases hsuffix : scaleExponent? c with
        | some e =>
          obtain ⟨hq, hexponent⟩ := suffixPower_of_scaleExponent? hsuffix
          left
          refine ⟨suffixPower e, more, hq, ?_⟩
          rw [scaledLiteral_of_suffix rfl hsuffix, hchars, hexponent]
        | none =>
          right
          refine ⟨hends, by rw [hpower], by simpa using hsuffix, ?_⟩
          rw [scaledLiteral_of_not_suffix hsuffix, hchars]

/-- What stands for a literal and its suffix stays, if what was made of the text behind it does. -/
theorem normalizeScales_scaledLiteral {l : Literal} {rest : List Char}
    (hread : Literal.read cs = some (l, rest))
    (ih : normalizeScalesFrom false (normalizeScalesFrom false (scaledLiteral l rest).2) =
      normalizeScalesFrom false (scaledLiteral l rest).2) :
    normalizeScales ((scaledLiteral l rest).1 ++ normalizeScalesFrom false (scaledLiteral l rest).2)
      = (scaledLiteral l rest).1 ++ normalizeScalesFrom false (scaledLiteral l rest).2 := by
  obtain ⟨b, hb, ⟨q, behind, hq, hscaled⟩ | ⟨hends, hpower, hsuffix, hscaled⟩⟩ :=
    exists_scaledLiteral_eq hread
  · rw [hscaled] at ih ⊢
    rw [List.append_assoc, normalizeScales_of_power hb hq, ih]
  · have hhead := head?_normalizeScalesFrom false rest
    have hkept : (Power.read (normalizeScalesFrom false rest)).1 = none := by
      rw [read_power_normalizeScalesFrom hpower]
    rw [← hhead] at hsuffix
    rw [hscaled] at ih ⊢
    rw [normalizeScales_of_plain hb (hends.congr hhead) hkept hsuffix, ih]

/-- Expanding suffixes twice is expanding them once, whether a literal is looked for at the front or
not. -/
theorem normalizeScalesFrom_normalizeScalesFrom (free : Bool) (cs : List Char) :
    normalizeScalesFrom free (normalizeScalesFrom free cs) = normalizeScalesFrom free cs := by
  fun_induction normalizeScalesFrom free cs with
  | case1 => simp [normalizeScalesFrom]
  | case2 c tail l rest hread ih => exact normalizeScales_scaledLiteral hread ih
  | case3 c tail hread ih =>
    have hstays := read_normalizeScales_eq_none hread
    rw [normalizeScales_of_not_read hread] at hstays
    show normalizeScales _ = _
    rw [normalizeScales_of_not_read hstays, ih]
  | case4 free c tail hfree ih =>
    obtain rfl : free = false := by simpa using hfree
    rw [normalizeScalesFrom_false, ih]

/-- There are no suffixes left to expand in a text whose suffixes have been expanded. -/
theorem normalizeScales_normalizeScales (cs : List Char) :
    normalizeScales (normalizeScales cs) = normalizeScales cs :=
  normalizeScalesFrom_normalizeScalesFrom true cs

end Normalize

end FlatNet
