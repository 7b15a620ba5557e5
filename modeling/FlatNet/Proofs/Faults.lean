import FlatNet.Proofs.Blanks
import FlatNet.Proofs.Number.Numeral
import FlatNet.Proofs.Suffix

/-!
# What a fault reports

Every fault of the lexer names a construct, and is placed at the beginning of it: a character, a
number, an expression in braces or quotes, an open brace or quote, or the name of a parameter
without value.  The number of a literal is never in doubt: what is read as one has a value.
-/

set_option autoImplicit false

namespace FlatNet

/-- The text begins with the construct that a lexical problem reports; the text goes to the end of
its line. -/
def Problem.Begins (cs : List Char) : Problem → Prop
  | .illegalCharacter c => cs.head? = some c
  | .malformedNumber text => text.toList <+: cs
  | .invalidExpression text _ =>
    (∃ raw rest, cs = '\x7b' :: (raw ++ '\x7d' :: rest) ∧ '\x7d' ∉ raw ∧
        text = String.ofList (Text.trim raw)) ∨
      ∃ rest, cs = '"' :: (text.toList ++ '"' :: rest) ∧ '"' ∉ text.toList
  | .unterminatedExpression => ∃ rest, cs = '\x7b' :: rest ∧ '\x7d' ∉ rest
  | .unterminatedString => ∃ rest, cs = '"' :: rest ∧ '"' ∉ rest
  | .missingParamValue name => ∃ gap rest, cs = name.toList ++ (gap ++ '=' :: rest) ∧
      (∀ c ∈ gap, Lexer.isGap c = true) ∧ rest.head? ≠ some '='
  | .unexpectedToken _ text => text.toList <+: cs
  | _ => False

/-! ## Literals have values -/

/-- A suffix stands for a power of ten. -/
theorem exponent_of_scaleExponent? {c : Char} {e : Int} (h : scaleExponent? c = some e) :
    Exponent (exponentChars e) := by
  obtain ⟨hproper, hchars⟩ := suffixPower_of_scaleExponent? h
  exact exponent_iff.2 ⟨_, hproper, hchars⟩

namespace Lexer

open Text (isWordChar)

variable {cs rest : List Char} {problem : Problem}

section Number

variable {kind : TokenKind} {literal : List Char}

/-- What is read as a number is a numeral behind a sign or none, also with the power of ten that
stands for its suffix. -/
theorem signedNumeral_of_readNumber? (h : readNumber? cs = some ⟨.ok (kind, literal), rest⟩) :
    SignedNumeral literal := by
  have hsign : IsSign (Power.readSign cs).1 := Power.sign_of_mem_readSign cs
  cases readNumber?_eq_some_iff.mp h with
  | plain hread _ => exact ⟨hsign, Literal.numeral_of_read hread⟩
  | scaled hread hsuffix hpower =>
    have hmantissa := Literal.mantissa_of_read hread hpower
    rw [List.append_assoc]
    exact ⟨hsign, .scientific hmantissa (exponent_of_scaleExponent? hsuffix)⟩

/-- What is read as a number has a value. -/
theorem exists_ofLiteral?_of_readNumber? (h : readNumber? cs = some ⟨.ok (kind, literal), rest⟩) :
    ∃ v, Binary64.ofLiteral? literal = some v :=
  Binary64.exists_ofLiteral?_iff.2 (signedNumeral_of_readNumber? h)

end Number

/-! ## What a reader leaves -/

/-- Behind a number the rest of the line is left. -/
theorem readNumber?_suffix {taken : Taken (Except Problem (TokenKind × List Char))}
    (h : readNumber? cs = some taken) : taken.rest <:+ cs := by
  have hbehind : ∀ {l : Literal} {behind : List Char},
      Literal.read (Power.readSign cs).2 = some (l, behind) → behind <:+ cs := fun hread =>
    List.IsSuffix.trans ⟨_, Literal.chars_append_read hread⟩ (readSign_suffix cs)
  cases readNumber?_eq_some_iff.mp h with
  | plain hread _ => exact hbehind hread
  | scaled hread _ _ | malformed hread _ _ => exact (List.suffix_cons _ _).trans (hbehind hread)

/-- Behind a value a rest of the line is left. -/
theorem readValue_suffix (cs : List Char) : (readValue cs).rest <:+ cs := by
  have hread := valueRead cs
  generalize readValue cs = taken at hread ⊢
  cases hread with
  | empty | none => exact List.suffix_refl _
  | braces hbraces | faultyBraces hbraces =>
    exact (suffix_of_readBraces hbraces).trans (List.suffix_cons _ _)
  | quoted hquoted _ | faultyExpression hquoted _ | faultyQuoted hquoted =>
    exact (suffix_of_readQuoted hquoted).trans (List.suffix_cons _ _)
  | name _ => exact List.dropWhile_suffix _
  | number hnumber _ | faultyNumber hnumber | valueless hnumber _ =>
    exact readNumber?_suffix hnumber

/-- Behind the value of a word a rest of the line is left. -/
theorem suffix_of_readValue {result : ValueReading} {start : List Char}
    (hstart : valueStart? (cs.dropWhile isWordChar) = some start)
    (hvalue : readValue start = ⟨result, rest⟩) : rest <:+ cs := by
  have hrest := readValue_suffix start
  rw [hvalue] at hrest
  exact hrest.trans ((valueStart?_suffix hstart).trans (List.dropWhile_suffix _))

/-- Behind a word a rest of the line is left. -/
theorem readWord_suffix (cs : List Char) : (readWord cs).rest <:+ cs := by
  have hread := wordRead cs
  generalize readWord cs = taken at hread ⊢
  cases hread with
  | definition hstart hvalue | faulty hstart hvalue | missing hstart hvalue =>
    exact suffix_of_readValue hstart hvalue
  | path _ _ | identifier _ _ => exact List.dropWhile_suffix _

/-- What a piece leaves is the end of the line. -/
theorem readPiece_suffix (first : Bool) (c : Char) (tail : List Char) :
    (readPiece first c tail).rest <:+ c :: tail := by
  have hread := pieceRead first c tail
  generalize readPiece first c tail = taken at hread ⊢
  cases hread with
  | comment => exact List.nil_suffix
  | quoted hquoted | faultyQuoted hquoted =>
    exact (suffix_of_readQuoted hquoted).trans (List.suffix_cons _ _)
  | braces hbraces | faultyBraces hbraces =>
    exact (suffix_of_readBraces hbraces).trans (List.suffix_cons _ _)
  | command _ _ => exact (List.dropWhile_suffix _).trans (List.suffix_cons _ _)
  | number hnumber | faultyNumber hnumber => exact readNumber?_suffix hnumber
  | word _ hword => exact hword ▸ readWord_suffix (c :: tail)
  | path _ _ _ => exact List.dropWhile_suffix _
  | illegal => exact List.suffix_cons _ _

/-! ## What a fault stands for -/

/-- Up to a mark there is a text without the mark, and behind it the rest. -/
theorem readUntil_eq_some {mark : Char} {text : List Char}
    (h : readUntil mark cs = some ⟨text, rest⟩) : cs = text ++ mark :: rest ∧ mark ∉ text := by
  have hsum := List.takeWhile_append_dropWhile (p := (· != mark)) (l := cs)
  have hstops := List.head?_dropWhile_not (· != mark) cs
  unfold readUntil at h
  split at h
  · exact absurd h (by simp)
  · rename_i d behind hdrop
    obtain ⟨rfl, rfl⟩ := Taken.mk.inj (Option.some.inj h)
    rw [hdrop] at hsum hstops
    obtain rfl : d = mark := by simpa using hstops
    refine ⟨hsum.symm, fun hmem => ?_⟩
    have hne := List.mem_takeWhile_imp hmem
    exact absurd hne (by simp)

/-- A mark that is not found is not there. -/
theorem not_mem_of_readUntil {mark : Char} (h : readUntil mark cs = none) : mark ∉ cs := by
  unfold readUntil at h
  split at h
  · rename_i hdrop
    intro hmem
    have hne := List.dropWhile_eq_nil_iff.mp hdrop mark hmem
    exact absurd hne (by simp)
  · exact absurd h (by simp)

/-- A fault of a quoted text is one of the construct that its quote begins. -/
theorem begins_of_readQuoted (h : (readQuoted cs).result = .error problem) :
    problem.Begins ('"' :: cs) := by
  unfold readQuoted at h
  split at h
  · exact absurd h (by simp)
  · rename_i hnone
    obtain rfl := Except.error.inj h
    exact ⟨cs, rfl, not_mem_of_readUntil hnone⟩

/-- A fault of an expression quotes the text as it is shown. -/
theorem eq_of_readExpression {shown raw : List Char}
    (h : readExpression shown raw = .error problem) :
    ∃ message, problem = .invalidExpression (String.ofList shown) message := by
  unfold readExpression at h
  dsimp only at h
  split at h
  · exact absurd h (by simp)
  · exact ⟨_, (Except.error.inj h).symm⟩

/-- A fault of an expression in braces is one of the construct that its brace begins. -/
theorem begins_of_readBraces (h : (readBraces cs).result = .error problem) :
    problem.Begins ('\x7b' :: cs) := by
  unfold readBraces at h
  split at h
  · rename_i taken hsome
    obtain ⟨raw, behind⟩ := taken
    obtain ⟨rfl, hraw⟩ := readUntil_eq_some hsome
    obtain ⟨message, rfl⟩ := eq_of_readExpression h
    exact .inl ⟨raw, behind, rfl, hraw, rfl⟩
  · rename_i hnone
    obtain rfl := Except.error.inj h
    exact ⟨cs, rfl, not_mem_of_readUntil hnone⟩

/-- A number that is malformed is what the text begins with. -/
theorem begins_of_readNumber? (h : readNumber? cs = some ⟨.error problem, rest⟩) :
    problem.Begins cs := by
  cases readNumber?_eq_some_iff.mp h with
  | malformed hread _ _ =>
    have hsign := Power.readSign_append cs
    rw [← Literal.chars_append_read hread] at hsign
    refine ⟨rest, ?_⟩
    rw [String.toList_ofList, List.append_assoc, List.append_assoc]
    exact hsign

/-- A quoted text ends at the first quote behind its opening one. -/
theorem eq_of_readQuoted {raw : List Char} (h : readQuoted cs = ⟨.ok raw, rest⟩) :
    cs = raw ++ '"' :: rest ∧ '"' ∉ raw := by
  unfold readQuoted at h
  split at h
  · rename_i taken hsome
    injection h with hraw hrest
    obtain rfl := Except.ok.inj hraw
    subst hrest
    exact readUntil_eq_some hsome
  · exact absurd (congrArg Taken.result h) (by simp)

/-- An expression in quotes that cannot be read is what the text begins with. -/
theorem begins_of_readExpression {raw : List Char} (hread : readQuoted cs = ⟨.ok raw, rest⟩)
    (h : readExpression raw raw = .error problem) : problem.Begins ('"' :: cs) := by
  obtain ⟨message, rfl⟩ := eq_of_readExpression h
  obtain ⟨rfl, hraw⟩ := eq_of_readQuoted hread
  refine .inr ⟨rest, ?_, ?_⟩
  · rw [String.toList_ofList]
  · rwa [String.toList_ofList]

/-- A problem at a distance from the beginning of what is read: there stands the construct that it
reports, and not a blank, and what is left begins behind that place. -/
structure FaultAt (cs rest : List Char) (problem : Problem) (distance : Nat) : Prop where
  begins : problem.Begins (cs.drop distance)
  start : ∃ c tail, cs.drop distance = c :: tail ∧ isBlank c = false
  progress : distance + rest.length < cs.length

/-- A problem that what is read begins with. -/
theorem FaultAt.of_begins {c : Char} {tail : List Char} (hbegins : problem.Begins (c :: tail))
    (hblank : isBlank c = false) (hrest : rest.length ≤ tail.length) :
    FaultAt (c :: tail) rest problem 0 where
  begins := hbegins
  start := ⟨c, tail, rfl, hblank⟩
  progress := by
    rw [Nat.zero_add]
    exact Nat.lt_succ_of_le hrest

/-- A faulty value reports what it begins with. -/
theorem faultAt_of_readValue (h : readValue cs = ⟨.faulty problem, rest⟩) :
    FaultAt cs rest problem 0 := by
  cases readValue_eq_iff.mp h with
  | faultyBraces hbraces =>
    exact .of_begins (begins_of_readBraces (congrArg Taken.result hbraces)) (by decide)
      (suffix_of_readBraces hbraces).length_le
  | faultyExpression hquoted hexpression =>
    exact .of_begins (begins_of_readExpression hquoted hexpression) (by decide)
      (suffix_of_readQuoted hquoted).length_le
  | faultyQuoted hquoted =>
    exact .of_begins (begins_of_readQuoted (congrArg Taken.result hquoted)) (by decide)
      (suffix_of_readQuoted hquoted).length_le
  | faultyNumber hnumber =>
    obtain ⟨-, -, -, -, hblank, -⟩ := number_facts (by rw [hnumber]; simp)
    exact .of_begins (begins_of_readNumber? hnumber) hblank
      (Nat.le_of_lt_succ (length_readNumber?_lt hnumber))
  | valueless hnumber hvalue =>
    -- a number that has been read has a value
    obtain ⟨v, hv⟩ := exists_ofLiteral?_of_readNumber? hnumber
    exact absurd (hvalue.symm.trans hv) (by simp)

/-- Where a value begins, there is one equals sign before it, between gaps. -/
theorem eq_of_valueStart? {start : List Char} (h : valueStart? cs = some start) :
    ∃ gap behind, cs = gap ++ '=' :: behind ∧ (∀ c ∈ gap, isGap c = true) ∧
      behind.head? ≠ some '=' ∧ start = behind.dropWhile isGap := by
  have hsum := List.takeWhile_append_dropWhile (p := isGap) (l := cs)
  unfold valueStart? at h
  split at h
  · exact absurd h (by simp)
  · rename_i behind hsingle hdrop
    rw [hdrop] at hsum
    refine ⟨cs.takeWhile isGap, behind, hsum.symm, fun c hc => List.mem_takeWhile_imp hc, ?_,
      (Option.some.inj h).symm⟩
    intro hhead
    obtain ⟨rest, rfl⟩ := List.head?_eq_some_iff.mp hhead
    exact hsingle rest rfl
  · exact absurd h (by simp)

/-- A fault of a word is placed at the construct that it reports: the word, or the value behind
it. -/
theorem faultAt_of_readWord {c : Char} {tail : List Char} {distance : Nat}
    (hstarts : startsWord c = true) (hblank : isBlank c = false)
    (h : readWord (c :: tail) = ⟨.fault problem distance, rest⟩) :
    FaultAt (c :: tail) rest problem distance := by
  have hprogress : (readWord (c :: tail)).rest.length < (c :: tail).length :=
    length_readWord_lt hstarts
  rw [h] at hprogress
  cases readWord_eq_iff.mp h with
  | faulty hstart hvalue =>
    rename_i start
    have hsuffix : start <:+ c :: tail :=
      (valueStart?_suffix hstart).trans (List.dropWhile_suffix _)
    have hdrop : (c :: tail).drop ((c :: tail).length - start.length) = start :=
      (List.suffix_iff_eq_drop.mp hsuffix).symm
    obtain ⟨hbegins, hfirst, hless⟩ := faultAt_of_readValue hvalue
    have hlength := hsuffix.length_le
    refine ⟨?_, ?_, by omega⟩
    · rwa [hdrop]
    · rwa [hdrop]
  | missing hstart _ =>
    obtain ⟨gap, behind, hafter, hgap, hsingle, -⟩ := eq_of_valueStart? hstart
    refine .of_begins ⟨gap, behind, ?_, hgap, hsingle⟩ hblank (Nat.le_of_lt_succ hprogress)
    rw [String.toList_ofList, ← hafter, List.takeWhile_append_dropWhile]

/-- A faulty piece reports what stands at its place. -/
theorem faultAt_of_readPiece {first : Bool} {c : Char} {tail : List Char} {distance : Nat}
    (hblank : isBlank c = false)
    (h : readPiece first c tail = ⟨.fault problem distance, rest⟩) :
    FaultAt (c :: tail) rest problem distance := by
  cases readPiece_eq_iff.mp h with
  | faultyQuoted hquoted =>
    exact .of_begins (begins_of_readQuoted (congrArg Taken.result hquoted)) hblank
      (suffix_of_readQuoted hquoted).length_le
  | faultyBraces hbraces =>
    exact .of_begins (begins_of_readBraces (congrArg Taken.result hbraces)) hblank
      (suffix_of_readBraces hbraces).length_le
  | faultyNumber hnumber =>
    exact .of_begins (begins_of_readNumber? hnumber) hblank
      (Nat.le_of_lt_succ (length_readNumber?_lt hnumber))
  | word hstarts hword => exact faultAt_of_readWord hstarts hblank hword
  | illegal => exact .of_begins rfl hblank (Nat.le_refl _)

end Lexer

end FlatNet
