import FlatNet.Proofs.Faults

/-!
# Numerals in texts

The number of a literal is read from its characters in a second step, and that step never fails.  A
token of a netlist is a numeral behind a sign or none, whatever was put together for it: a sign, a
literal and the power of ten that stands for a suffix.  An expression is never refused for a literal
that was found in it, only for a point where there is none.
-/

set_option autoImplicit false

namespace FlatNet

/-- However a piece with the kind of a literal is read, it is a numeral behind a sign or none. -/
theorem Lexer.TokenRead.signedNumeral {c : Char} {tail : List Char} {kind : TokenKind}
    {text : String} (h : TokenRead c tail kind text) (hkind : kind.isNumeric = true) :
    SignedNumeral text.toList := by
  cases h with
  | number h =>
    rw [String.toList_ofList]
    exact signedNumeral_of_readNumber? h
  | _ => exact absurd hkind (by simp [TokenKind.isNumeric])

/-- A token with the kind of a literal is a numeral behind a sign or none. -/
theorem signedNumeral_of_mem_lexemes {text : String} {t : Token}
    (h : .token t ∈ Lexer.lexemes text) (hkind : t.kind.isNumeric = true) :
    SignedNumeral t.text.toList := by
  obtain ⟨line, hcut⟩ := Lexer.exists_cutFrom_of_mem_lexemes h
  rcases hcut.token_cases with hmark | ⟨c, tail, hread⟩
  · simp only [List.mem_cons, List.not_mem_nil, or_false] at hmark
    rcases hmark with hmark | hmark | hmark | hmark <;> rw [hmark] at hkind <;>
      exact absurd hkind (by decide)
  · exact hread.signedNumeral hkind

/-- Numbers are cut out exactly, and none of them turns out to be malformed later.  The literal that
is read from a text is the longest numeral that the text begins with, and there is one wherever a
digit, or a point and a digit, begins the text; every token of a text that has the kind of a literal
is a numeral behind a sign or none, and has a number; and when a text is scanned as an expression,
the scan does not fail for a literal whose number cannot be read, and only fails for a malformed
number where there is no literal. -/
theorem numerals_exact (text : String) :
    (IsGreatest (numeralSizes text.toList) (Literal.prefixSize text.toList) ∨
      numeralSizes text.toList = ∅ ∧ Literal.prefixSize text.toList = 0) ∧
    (StartsNumeral text.toList ↔ 0 < Literal.prefixSize text.toList) ∧
    (∀ t : Token, .token t ∈ Lexer.lexemes text → t.kind.isNumeric = true →
      SignedNumeral t.text.toList ∧ ∃ v, t.number? = some v) ∧
    ∀ failure : Expr.Failure, Expr.Token.scan text.toList = .error failure →
      (∀ shown, failure.fault ≠ .malformedLiteral shown) ∧
      (failure.fault = .malformedNumber →
        Literal.prefixSize (text.toList.drop failure.offset) = 0) := by
  refine ⟨prefixSize_spec _, startsNumeral_iff_prefixSize_pos, fun t ht hkind => ?_,
    fun failure hfailure => ?_⟩
  · have hnumeral := signedNumeral_of_mem_lexemes ht hkind
    refine ⟨hnumeral, ?_⟩
    rw [Token.number?, if_pos hkind]
    exact Binary64.exists_ofLiteral?_iff.2 hnumeral
  · obtain ⟨front, rest, htext, hoffset, hread⟩ := Expr.Token.exists_readOne_of_scanFrom hfailure
    obtain ⟨hliteral, hnumber⟩ := Expr.Token.fault_of_readOne hread
    refine ⟨hliteral, fun hfault => ?_⟩
    rw [Nat.zero_add] at hoffset
    rw [htext, hoffset, List.drop_left]
    exact Literal.prefixSize_of_not_read (hnumber hfault)

/-- A sign, a literal and a suffix are put together to a token with a number, and a point without
digits is no literal. -/
theorem numerals_exact_scaled :
    (∃ t : Token, .token t ∈ Lexer.lexemes "t\nR1 a 0 -.5k" ∧ t.kind.isNumeric = true ∧
      t.text = "-.5e3" ∧ ∃ v, t.number? = some v) ∧
    Expr.Token.scan "2+.".toList = .error ⟨2, .malformedNumber⟩ ∧
      Literal.prefixSize ("2+.".toList.drop 2) = 0 := by
  have hany : (Lexer.lexemes "t\nR1 a 0 -.5k").any (fun l =>
      l.token?.any fun t => t.kind.isNumeric && t.text == "-.5e3") = true := by decide +kernel
  have hscan : Expr.Token.scan "2+.".toList = .error ⟨2, .malformedNumber⟩ := by decide +kernel
  obtain ⟨l, hl, htoken⟩ := List.any_eq_true.1 hany
  refine ⟨?_, hscan, ((numerals_exact "2+.").2.2.2 _ hscan).2 rfl⟩
  cases l with
  | fault f => exact absurd htoken (by simp [Lexeme.token?])
  | token t =>
    obtain ⟨hkind, htext⟩ := Bool.and_eq_true_iff.1 htoken
    exact ⟨t, hl, hkind, beq_iff_eq.1 htext, ((numerals_exact _).2.2.1 t hl hkind).2⟩

end FlatNet
