import FlatNet.Proofs.Expr.Names
import FlatNet.Proofs.Expr.Parser
import FlatNet.Proofs.Number.Scale
import FlatNet.Proofs.Cutting

/-!
# Magnitude suffixes inside and outside of braces

The value of a parameter is a literal, or an expression in braces.  A literal is read with its
suffix; in an expression the suffixes are expanded first, and then the expanded text is read.  Where
a text without white space is one number in braces, it is the same number without them, unless
digits stand right behind its suffix: in braces they are taken into the power of ten that stands for
the suffix, and without braces they are left for a piece of their own.
-/

set_option autoImplicit false

namespace FlatNet

open Text (isWhiteSpace isWordChar trim)

/-! ## Expressions that are a number -/

namespace Expr

namespace Grammar

/-- Summands behind an operation do not make a literal of it. -/
theorem SumTail.tree_binary_ne_num : (rest : SumTail) → (op : BinaryOp) → (lhs rhs : Expr) →
    (v : Binary64) → rest.tree (.binary op lhs rhs) ≠ .num v
  | .nil, _, _, _, _ => nofun
  | .cons _ _ rest, _, _, _, _ => rest.tree_binary_ne_num _ _ _ _

/-- Factors behind an operation do not make a literal of it. -/
theorem ProductTail.tree_binary_ne_num : (rest : ProductTail) → (op : BinaryOp) →
    (lhs rhs : Expr) → (v : Binary64) → rest.tree (.binary op lhs rhs) ≠ .num v
  | .nil, _, _, _, _ => nofun
  | .cons _ _ rest, _, _, _, _ => rest.tree_binary_ne_num _ _ _ _

/-- A sum that begins with a number and is one consists of that number. -/
theorem Sum.eq_of_tree_eq_num {d : Sum} {x v : Binary64} {ts : List Token}
    (htokens : d.tokens = .number x :: ts) (htree : d.tree = .num v) : ts = [] ∧ x = v := by
  obtain ⟨⟨p, products⟩, summands⟩ := d
  cases summands with
  | cons op next rest => exact absurd htree (rest.tree_binary_ne_num _ _ _ _)
  | nil =>
    cases products with
    | cons op next rest => exact absurd htree (rest.tree_binary_ne_num _ _ _ _)
    | nil =>
      cases p with
      | raised a exponent => exact absurd htree nofun
      | signed sign operand => exact absurd htokens (by simp [Sum.tokens, Product.tokens,
          Factor.tokens])
      | base a =>
        cases a with
        | number value =>
          obtain ⟨hvalue, hnil⟩ := List.cons.inj htokens
          obtain rfl := Token.number.inj hvalue
          exact ⟨hnil.symm, Expr.num.inj htree⟩
        | name s => exact absurd htree nofun
        | call function args => exact absurd htree nofun
        | group inner => exact absurd htokens (by simp [Sum.tokens, Product.tokens, Factor.tokens,
            Atom.tokens])

end Grammar

/-- A text without tokens consists of blanks. -/
theorem Token.isBlank_of_scanFrom {offset : Nat} {cs : List Char}
    (h : Token.scanFrom offset cs = .ok []) : ∀ c ∈ cs, Token.isBlank c = true := by
  induction cs generalizing offset with
  | nil => exact List.forall_mem_nil _
  | cons c tail ih =>
    cases hblank : Token.isBlank c with
    | true =>
      rw [Token.scanFrom_of_isBlank hblank] at h
      exact List.forall_mem_cons.2 ⟨hblank, ih h⟩
    | false =>
      rw [Token.scanFrom, if_neg (by rw [hblank]; simp)] at h
      split at h
      · exact absurd h (by simp)
      · split at h <;> exact absurd h (by simp)

/-- A text with tokens that begins like a number begins with a literal, which is its first token. -/
theorem Token.exists_literal_of_scanFrom {offset : Nat} {c : Char} {tail : List Char}
    {placed : List Placed} (hc : (c.isDigit || c == '.') = true)
    (h : Token.scanFrom offset (c :: tail) = .ok placed) :
    ∃ l rest offset' behind, Literal.read (c :: tail) = some (l, rest) ∧
      Token.scanFrom offset' rest = .ok behind ∧
      placed = ⟨offset, .number (l.decimal false).toBinary64⟩ :: behind := by
  have hblank := (Token.startsNumber_facts hc).2
  cases hread : Literal.read (c :: tail) with
  | none =>
    have hone : Token.readOne (c :: tail) = .error .malformedNumber := by
      simp only [Token.readOne]
      rw [if_pos hc, hread]
    rw [Token.scanFrom, if_neg (by rw [hblank]; simp)] at h
    split at h
    · exact absurd h (by simp)
    · rename_i hok
      exact absurd (hone.symm.trans hok) (by simp)
  | some result =>
    obtain ⟨l, rest⟩ := result
    rw [Token.scanFrom_of_readOne hblank (Token.readOne_of_read hc hread)] at h
    cases hbehind : Token.scanFrom (offset + ((c :: tail).length - rest.length)) rest with
    | error failure =>
      rw [hbehind] at h
      simp [Except.map] at h
    | ok behind =>
      rw [hbehind] at h
      exact ⟨l, rest, _, behind, rfl, hbehind, (Except.ok.inj h).symm⟩

/-- A text without blanks that begins like a number, and is one, is a literal. -/
theorem read_of_parseChars {c : Char} {tail : List Char} {v : Binary64}
    (hc : (c.isDigit || c == '.') = true) (hblank : ∀ d ∈ c :: tail, Token.isBlank d = false)
    (h : parseChars (c :: tail) = .ok (.num v)) :
    ∃ l, Literal.read (c :: tail) = some (l, []) ∧ (l.decimal false).toBinary64 = v := by
  unfold parseChars Token.scan at h
  split at h
  · rename_i placed hscan
    obtain ⟨d, htokens, htree⟩ := (Parsing.run_start_eq_ok_iff _ _ _).1 h
    obtain ⟨l, rest, offset, behind, hread, hbehind, rfl⟩ :=
      Token.exists_literal_of_scanFrom hc hscan
    obtain ⟨hnil, hvalue⟩ := Grammar.Sum.eq_of_tree_eq_num htokens htree
    rw [List.map_eq_nil_iff.1 hnil] at hbehind
    have hblanks := Token.isBlank_of_scanFrom hbehind
    have hrest : rest = [] := by
      refine List.eq_nil_iff_forall_not_mem.2 fun d hd => ?_
      have hmem : d ∈ c :: tail := by
        rw [← Literal.chars_append_read hread]
        exact List.mem_append_right _ hd
      exact absurd ((hblank d hmem).symm.trans (hblanks d hd)) (by simp)
    exact ⟨l, by rw [← hrest]; exact hread, hvalue⟩
  · exact absurd h (by simp)

end Expr

/-! ## Definitions of parameters -/

namespace Lexer

variable {name start w : List Char} {v : Binary64}

/-- What may stand behind the equals sign of a definition. -/
def StartsValue (cs : List Char) : Prop := ∀ c ∈ cs.head?, c ≠ '=' ∧ isGap c = false

/-- A name with an equals sign behind it is read as a definition. -/
theorem readWord_definition (hname : IsWord name) (hstart : StartsValue start) :
    readWord (name ++ '=' :: start) =
      match readValue start with
      | ⟨.value e, rest⟩ =>
        ⟨.token (.paramDef (String.ofList name) e) (String.ofList name ++ "=" ++ e.text), rest⟩
      | ⟨.faulty problem, rest⟩ =>
        ⟨.fault problem ((name ++ '=' :: start).length - start.length), rest⟩
      | ⟨.missing, rest⟩ => ⟨.fault (.missingParamValue (String.ofList name)) 0, rest⟩ := by
  obtain ⟨c, tail, rfl, hc, htail⟩ := hname
  have hchars : ∀ d ∈ c :: tail, isWordChar d = true :=
    List.forall_mem_cons.2 ⟨isWordChar_of_startsWord hc, htail⟩
  have htake : ((c :: tail) ++ '=' :: start).takeWhile isWordChar = c :: tail := by
    rw [List.takeWhile_append_of_pos hchars]
    exact List.append_nil _
  have hdrop : ((c :: tail) ++ '=' :: start).dropWhile isWordChar = '=' :: start := by
    rw [List.dropWhile_append_of_pos hchars]
    rfl
  have hvalue : valueStart? ('=' :: start) = some start := by
    unfold valueStart?
    cases start with
    | nil => rfl
    | cons d more =>
      obtain ⟨hne, hgap⟩ := hstart d rfl
      have hequals : ('=' :: d :: more).dropWhile isGap = '=' :: d :: more := rfl
      rw [hequals]
      split
      · rename_i heq
        exact absurd (List.cons.inj (List.cons.inj heq).2).1 hne
      · rename_i rest _ heq
        obtain rfl := (List.cons.inj heq).2
        rw [List.dropWhile_cons, hgap]
        rfl
      · rename_i hnot
        exact absurd rfl (hnot (d :: more))
  unfold readWord
  rw [htake, hdrop]
  dsimp only
  cases hafter : valueStart? ('=' :: start) with
  | none => exact absurd (hvalue.symm.trans hafter) (by simp)
  | some start' =>
    obtain rfl := Option.some.inj (hvalue.symm.trans hafter)
    rfl

/-- The first piece of a definition, with what its value leaves of the line behind it. -/
theorem lexPieces_definition (line column : Nat) (first : Bool) (hname : IsWord name)
    (hstart : StartsValue start) :
    ∃ column', lexPieces line column first (name ++ '=' :: start) =
      Piece.place line column (readWord (name ++ '=' :: start)).result ::
        lexPieces line column' false (readValue start).rest := by
  have hword := readWord_definition hname hstart
  obtain ⟨c, tail, rfl, hc, htail⟩ := hname
  obtain ⟨-, -, -, -, -, -, -, hblank⟩ := startsWord_facts hc
  have hpiece :
      readPiece first c (tail ++ '=' :: start) = readWord (c :: tail ++ '=' :: start) :=
    PieceRead.eq (.word hc rfl)
  have hrest : (readWord (c :: tail ++ '=' :: start)).rest = (readValue start).rest := by
    rw [hword]
    split <;> rename_i h <;> rw [h]
  refine ⟨column + ((c :: tail ++ '=' :: start).length - (readValue start).rest.length), ?_⟩
  rw [← hrest]
  exact lexPieces_of_readPiece line column (by rw [hblank]; simp) hpiece

/-- A line without pieces consists of blanks. -/
theorem lexPieces_eq_nil_iff (line column : Nat) (first : Bool) (cs : List Char) :
    lexPieces line column first cs = [] ↔ ∀ c ∈ cs, isBlank c = true := by
  induction cs generalizing column with
  | nil => simp [lexPieces]
  | cons c tail ih =>
    rw [lexPieces]
    by_cases hblank : isBlank c = true
    · rw [if_pos hblank, ih, List.forall_mem_cons]
      exact (and_iff_right hblank).symm
    · rw [if_neg hblank, List.forall_mem_cons]
      exact iff_of_false (List.cons_ne_nil _ _) fun h => hblank h.1

/-- The parameter and its number, if the row is one token, which defines a parameter by a number. -/
def definedNumber? : List Lexeme → Option (String × Binary64)
  | [.token ⟨.paramDef name (.num v), _, _, _⟩] => some (name, v)
  | _ => none

/-- A parameter is defined by a number exactly if the row is the one token that does so. -/
theorem definedNumber?_eq_some_iff {row : List Lexeme} {name : String} {v : Binary64} :
    definedNumber? row = some (name, v) ↔
      ∃ t, row = [.token t] ∧ t.kind = .paramDef name (.num v) := by
  constructor
  · intro h
    unfold definedNumber? at h
    split at h
    · obtain ⟨rfl, rfl⟩ := Prod.mk.inj (Option.some.inj h)
      exact ⟨_, rfl, rfl⟩
    · exact absurd h (by simp)
  · rintro ⟨⟨kind, text, line, column⟩, rfl, hkind⟩
    obtain rfl : kind = _ := hkind
    rfl

/-- A parameter is defined by a number if the value is one and nothing but blanks follows it. -/
theorem definedNumber?_definition (line column : Nat) (first : Bool) (hname : IsWord name)
    (hstart : StartsValue start) (v : Binary64) :
    definedNumber? (lexPieces line column first (name ++ '=' :: start)) =
        some (String.ofList name, v) ↔
      ∃ rest, readValue start = ⟨.value (.num v), rest⟩ ∧ ∀ c ∈ rest, isBlank c = true := by
  obtain ⟨column', hrow⟩ := lexPieces_definition line column first hname hstart
  have hword := readWord_definition hname hstart
  rw [hrow, definedNumber?_eq_some_iff]
  constructor
  · rintro ⟨t, hone, hkind⟩
    obtain ⟨hplace, hnil⟩ := List.cons.inj hone
    have hblank := (lexPieces_eq_nil_iff _ _ _ _).1 hnil
    cases hvalue : readValue start with
    | mk result rest =>
      rw [hvalue] at hword hblank
      cases result with
      | value e =>
        rw [hword] at hplace
        obtain rfl := Lexeme.token.inj hplace
        obtain ⟨-, rfl⟩ := TokenKind.paramDef.inj hkind
        exact ⟨rest, rfl, hblank⟩
      | faulty problem =>
        rw [hword] at hplace
        exact absurd hplace nofun
      | missing =>
        rw [hword] at hplace
        exact absurd hplace nofun
  · rintro ⟨rest, hvalue, hblank⟩
    rw [hvalue] at hword ⊢
    rw [hword, (lexPieces_eq_nil_iff _ _ _ _).2 hblank]
    exact ⟨_, rfl, rfl⟩

/-! ## Values in braces -/

/-- A text without the mark is read up to the mark behind it. -/
theorem readUntil_of_not_mem {mark : Char} {cs : List Char} (h : mark ∉ cs) (rest : List Char) :
    readUntil mark (cs ++ mark :: rest) = some ⟨cs, rest⟩ := by
  have hall : ∀ c ∈ cs, (c != mark) = true := fun c hc => bne_iff_ne.2 fun heq => h (heq ▸ hc)
  unfold readUntil
  rw [List.dropWhile_append_of_pos hall, List.takeWhile_append_of_pos hall,
    List.dropWhile_cons_of_neg (by simp), List.takeWhile_cons_of_neg (by simp), List.append_nil]

/-- An expression in braces reaches to the first closing brace. -/
theorem readBraces_of_not_mem (h : '\x7d' ∉ w) (rest : List Char) :
    readBraces (w ++ '\x7d' :: rest) = ⟨readExpression (trim w) w, rest⟩ := by
  unfold readBraces
  rw [readUntil_of_not_mem h]

/-- A value that begins with a brace is the expression in the braces. -/
theorem readBraces_of_readValue {cs rest : List Char} {e : Expr}
    (h : readValue ('\x7b' :: cs) = ⟨.value e, rest⟩) :
    ∃ text, readBraces cs = ⟨.ok (text, e), rest⟩ := by
  cases readValue_eq_iff.1 h with
  | braces hbraces => exact ⟨_, hbraces⟩
  | name hword => exact absurd hword (by decide)
  | number hnumber _ =>
    obtain ⟨-, -, hbrace, -⟩ := number_facts (by rw [hnumber]; simp)
    exact absurd rfl hbrace

/-- An expression that is read is the text without suffixes, parsed. -/
theorem eq_of_readExpression_ok {shown raw : List Char} {text : String} {e : Expr}
    (h : readExpression shown raw = .ok (text, e)) :
    text.toList = normalizeScales raw ∧ Expr.parseChars (normalizeScales raw) = .ok e := by
  unfold readExpression at h
  dsimp only at h
  split at h
  · rename_i e' hparse
    obtain ⟨rfl, rfl⟩ := Prod.mk.inj (Except.ok.inj h)
    exact ⟨String.toList_ofList, hparse⟩
  · exact absurd h (by simp)

/-- A value in braces that reaches to the end of the line is what is between the braces, expanded
and read as an expression. -/
theorem parseChars_of_readValue_braces {e : Expr} {rest : List Char}
    (h : readValue ('\x7b' :: (w ++ ['\x7d'])) = ⟨.value e, rest⟩)
    (hrest : ∀ c ∈ rest, isBlank c = true) : Expr.parseChars (normalizeScales w) = .ok e := by
  obtain ⟨text, hbraces⟩ := readBraces_of_readValue h
  by_cases hmem : '\x7d' ∈ w
  · -- the first closing brace leaves the last one to another piece
    obtain ⟨a, b, rfl, ha⟩ := List.eq_append_cons_of_mem hmem
    rw [List.append_assoc, List.cons_append, readBraces_of_not_mem ha] at hbraces
    have hleft : b ++ ['\x7d'] = rest := congrArg Taken.rest hbraces
    exact absurd (hrest '\x7d' (by rw [← hleft]; simp)) (by decide)
  · rw [readBraces_of_not_mem hmem] at hbraces
    exact (eq_of_readExpression_ok (congrArg Taken.result hbraces)).2

/-- A text without white space has no blanks when its suffixes are expanded. -/
theorem isBlank_of_mem_normalizeScales (hw : ∀ c ∈ w, isWhiteSpace c = false) :
    ∀ c ∈ normalizeScales w, Expr.Token.isBlank c = false := by
  have hexponents : ∀ suffix ∈ scaleSuffixes,
      (exponentChars suffix.2).all (fun c => !Expr.Token.isBlank c) = true := by decide +kernel
  intro c hc
  rcases mem_normalizeScalesFrom hc with htext | ⟨suffix, hsuffix, hexponent⟩
  · refine Bool.eq_false_iff.2 fun hblank => ?_
    have hspace : isWhiteSpace c = true := by
      simp only [Expr.Token.isBlank, Bool.or_eq_true, beq_iff_eq] at hblank
      rcases hblank with ((rfl | rfl) | rfl) | rfl <;> decide
    exact absurd (hspace.symm.trans (hw c htext)) (by simp)
  · simpa using List.all_eq_true.1 (hexponents suffix hsuffix) c hexponent

/-! ## Values without braces -/

/-- A value that begins like a number is its literal, with its suffix. -/
theorem readValue_of_read {c : Char} {tail rest : List Char} {l : Literal}
    (hc : (c.isDigit || c == '.') = true) (h : Literal.read (c :: tail) = some (l, rest)) :
    readValue (c :: tail) =
      match endNumber l l.chars rest with
      | ⟨.error problem, rest⟩ => ⟨.faulty problem, rest⟩
      | ⟨.ok (_, literal), rest⟩ =>
        match Binary64.ofLiteral? literal with
        | some v => ⟨.value (.num v), rest⟩
        | none => ⟨.faulty (.malformedNumber (String.ofList literal)), rest⟩ := by
  have hnumber : readNumber? (c :: tail) = some (endNumber l l.chars rest) := by
    rw [readNumber?_eq, Power.readSign_of_startsNumber hc, h]
    rfl
  obtain ⟨-, hquote, hbrace, hword, -⟩ := number_facts (by rw [hnumber]; simp)
  unfold readValue
  dsimp only
  rw [beq_false_of_ne hbrace, beq_false_of_ne hquote, hword, hnumber]
  cases endNumber l l.chars rest with
  | mk result behind => cases result <;> rfl

/-- A suffix behind a literal without power is written as its power of ten. -/
theorem endNumber_of_suffix {l : Literal} (hpower : l.power = none) {c : Char} {e : Int}
    (hc : scaleExponent? c = some e) (literal behind : List Char) :
    endNumber l literal (c :: behind) = ⟨.ok (.scaled, literal ++ exponentChars e), behind⟩ := by
  unfold endNumber
  dsimp only
  rw [hc, hpower]
  rfl

/-! ## Values with and without braces -/

/-- Digits stand right behind the suffix of the literal that the text begins with. -/
def Glued (w : List Char) : Prop :=
  ∃ l suffix behind, Literal.read w = some (l, suffix :: behind) ∧ l.power = none ∧
    (scaleExponent? suffix).isSome ∧ behind ≠ [] ∧ ∀ d ∈ behind, d.isDigit = true

section Word

variable {c : Char} {tail : List Char} (hc : (c.isDigit || c == '.') = true)

include hc

/-- A number may stand behind the equals sign. -/
theorem startsValue_number : StartsValue (c :: tail) := by
  intro d hd
  obtain rfl : c = d := Option.some.inj hd
  refine ⟨?_, ?_⟩
  · rintro rfl
    exact absurd hc (by decide)
  · refine Bool.eq_false_iff.2 fun hgap => ?_
    rcases (by simpa [isGap] using hgap : c = ' ' ∨ c = '\t') with rfl | rfl <;>
      exact absurd hc (by decide)

/-- A number in braces is one literal when its suffixes are expanded. -/
theorem read_of_definesNumber_braces {line column : Nat} {first : Bool} (hname : IsWord name)
    (hw : ∀ d ∈ c :: tail, isWhiteSpace d = false)
    (h : definedNumber?
        (lexPieces line column first (name ++ '=' :: '\x7b' :: (c :: tail ++ ['\x7d']))) =
      some (String.ofList name, v)) :
    ∃ l, Literal.read (normalizeScales (c :: tail)) = some (l, []) ∧
      (l.decimal false).toBinary64 = v := by
  have hbrace : StartsValue ('\x7b' :: (c :: tail ++ ['\x7d'])) := by
    intro d hd
    obtain rfl : '\x7b' = d := Option.some.inj hd
    exact ⟨by decide, rfl⟩
  obtain ⟨rest, hvalue, hrest⟩ := (definedNumber?_definition line column first hname hbrace v).1 h
  have hparse := parseChars_of_readValue_braces hvalue hrest
  have hblank := isBlank_of_mem_normalizeScales hw
  obtain ⟨more, hnormal⟩ : ∃ more, normalizeScales (c :: tail) = c :: more :=
    List.head?_eq_some_iff.1 (head?_normalizeScalesFrom true (c :: tail))
  rw [hnormal] at hparse hblank ⊢
  exact Expr.read_of_parseChars hc hblank hparse

/-- Where a text without white space is a number in braces, it is the same number without them,
unless digits stand right behind its suffix. -/
theorem definesNumber_braces_iff (line column : Nat) (first : Bool) (hname : IsWord name)
    (hw : ∀ d ∈ c :: tail, isWhiteSpace d = false)
    (h : definedNumber?
        (lexPieces line column first (name ++ '=' :: '\x7b' :: (c :: tail ++ ['\x7d']))) =
      some (String.ofList name, v)) :
    definedNumber? (lexPieces line column first (name ++ '=' :: c :: tail)) =
        some (String.ofList name, v) ↔
      ¬ Glued (c :: tail) := by
  obtain ⟨l', hread', hv⟩ := read_of_definesNumber_braces hc hname hw h
  have hnumber := Binary64.ofLiteral?_of_read hread'
  rw [hv] at hnumber
  obtain ⟨l, rest, hread, hrest⟩ := read_normalizeScales hread'
  rw [definedNumber?_definition line column first hname (startsValue_number hc) v,
    readValue_of_read hc hread]
  obtain ⟨rfl, hplain⟩ | ⟨suffix, e, behind, rfl, hpower, hsuffix, hdigits, hscaled⟩ := hrest
  · refine iff_of_true ⟨[], ?_, List.forall_mem_nil _⟩ ?_
    · rw [hplain] at hnumber
      unfold endNumber
      dsimp only
      rw [hnumber]
    · rintro ⟨l₁, suffix, behind, hread₁, -⟩
      exact absurd (Prod.mk.inj (Option.some.inj (hread.symm.trans hread₁))).2 (by simp)
  · rw [endNumber_of_suffix hpower hsuffix]
    dsimp only
    cases behind with
    | nil =>
      rw [hscaled, List.append_nil] at hnumber
      refine iff_of_true ⟨[], by rw [hnumber], List.forall_mem_nil _⟩ ?_
      rintro ⟨l₁, suffix₁, behind, hread₁, -, -, hbehind, -⟩
      obtain ⟨-, hsame⟩ := Prod.mk.inj (Option.some.inj (hread.symm.trans hread₁))
      exact hbehind (List.cons.inj hsame).2.symm
    | cons d ds =>
      -- the digits are left for a piece of their own
      refine iff_of_false ?_ (not_not.2 ⟨l, suffix, d :: ds, hread, hpower,
        Option.isSome_iff_exists.2 ⟨e, hsuffix⟩, List.cons_ne_nil _ _, hdigits⟩)
      rintro ⟨rest, hvalue, hblank⟩
      have hleft : d :: ds = rest := by
        split at hvalue <;> exact congrArg Taken.rest hvalue
      have hd : isBlank d = true := hblank d (by rw [← hleft]; exact List.mem_cons_self)
      have hdigit : d.isDigit = true := hdigits d List.mem_cons_self
      rcases (by simpa [isBlank] using hd : (d = ' ' ∨ d = '\t') ∨ d = '\r') with
        (rfl | rfl) | rfl <;> exact absurd hdigit (by decide)

end Word

/-- A number with a suffix that begins with its point is the same in braces and without them, for no
digits stand behind the suffix. -/
theorem definesNumber_braces_point :
    definedNumber? (lexPieces 2 8 false "gain=\x7b.5m\x7d".toList) =
        some ("gain", ⟨0x3f40624dd2f1a9fc⟩) ∧
      (definedNumber? (lexPieces 2 8 false "gain=.5m".toList) =
          some ("gain", ⟨0x3f40624dd2f1a9fc⟩) ↔ ¬ Glued ".5m".toList) := by
  have hbraces : definedNumber? (lexPieces 2 8 false "gain=\x7b.5m\x7d".toList) =
      some ("gain", ⟨0x3f40624dd2f1a9fc⟩) := by decide +kernel
  have hw : ∀ d ∈ ".5m".toList, isWhiteSpace d = false := by
    have hall : (".5m".toList.all fun d => !isWhiteSpace d) = true := by decide
    exact fun d hd => by simpa using List.all_eq_true.1 hall d hd
  exact ⟨hbraces, definesNumber_braces_iff (c := '.') rfl 2 8 false
    ⟨'g', "ain".toList, rfl, by decide, List.all_eq_true.1 (by decide)⟩
    hw hbraces⟩

/-- In braces `1k5` is `1e35`; without them it is a thousand, and a five is left. -/
theorem not_definesNumber_glued :
    definedNumber? (lexPieces 2 8 false "p=\x7b1k5\x7d".toList) =
        some ("p", ⟨0x4733426172c74d82⟩) ∧
      definedNumber? (lexPieces 2 8 false "p=1k5".toList) = none ∧
      normalizeScales "1k5".toList = "1e35".toList := by
  refine ⟨?_, ?_, ?_⟩ <;> decide +kernel

end Lexer

end FlatNet
