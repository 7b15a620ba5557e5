import FlatNet.Proofs.Reading.Action
import FlatNet.Proofs.Token

/-!
# The outline of a text

Where sub-circuits begin and end can be read off the first tokens of the logical lines, whatever
else they say.  The outline of a text says so for each of its lines: on which lines the sub-circuits
begin that are open there.  A reader has the same ones open, apart from those that it has rejected.
-/

set_option autoImplicit false

namespace FlatNet

/-- The nesting of sub-circuits behind some lines of a text. -/
structure Outline where
  /-- The numbers of the lines on which the open sub-circuits begin, innermost first. -/
  opened : List Nat
  /-- The text has ended. -/
  ended : Bool

namespace Outline

open Tokenized (startOf)

/-- The outline behind one more logical line. -/
def after (o : Outline) (line : List Token) : Outline :=
  match line with
  | [] => o
  | first :: _ =>
    if o.ended then o
    else
      match first.bracket with
      | .opening => { o with opened := first.line :: o.opened }
      | .closing => { o with opened := o.opened.tail }
      | .final => { o with ended := true }
      | .plain => o

/-- The outline behind logical lines. -/
def behind (lines : List (List Token)) : Outline := lines.foldl after ⟨[], false⟩

/-- The sub-circuits that are open on a line of text with the given number, the innermost first, by
the numbers of the lines on which they begin. -/
def openOn (lines : List (List Token)) (number : Nat) : List Nat :=
  (behind (lines.takeWhile fun line => startOf line ≤ number)).opened

/-- The logical lines are in the order of a text: none is empty, and each begins before its tokens
and behind those of the lines before it. -/
structure InOrder (lines : List (List Token)) : Prop where
  nonempty : ∀ line ∈ lines, line ≠ []
  start : ∀ line ∈ lines, ∀ t ∈ line, startOf line ≤ t.line
  apart : lines.Pairwise fun earlier later => ∀ t ∈ earlier, t.line < startOf later

/-- The logical lines of a text are in order. -/
theorem inOrder_tokenize (text : String) : InOrder (tokenize text).lines :=
  ⟨Tokenized.ne_nil_of_mem_lines, Tokenized.startOf_le_of_mem_lines, Tokenized.pairwise_lines⟩

section After

variable {o : Outline} {first : Token} {rest : List Token} (h : o.ended = false)

include h

/-- What a line does to the outline is told by its first token. -/
theorem after_cons (first : Token) (rest : List Token) :
    o.after (first :: rest) =
      match first.bracket with
      | .opening => { o with opened := first.line :: o.opened }
      | .closing => { o with opened := o.opened.tail }
      | .final => { o with ended := true }
      | .plain => o := if_neg (by rw [h]; simp)

/-- A line that opens a sub-circuit is noted as the innermost one. -/
theorem after_of_opening (hfirst : first.bracket = .opening) :
    o.after (first :: rest) = { o with opened := first.line :: o.opened } := by
  rw [after_cons h, hfirst]

/-- A line that closes a sub-circuit takes off the innermost one. -/
theorem after_of_closing (hfirst : first.bracket = .closing) :
    o.after (first :: rest) = { o with opened := o.opened.tail } := by
  rw [after_cons h, hfirst]

/-- The end command ends the outline. -/
theorem after_of_final (hfirst : first.bracket = .final) :
    o.after (first :: rest) = { o with ended := true } := by
  rw [after_cons h, hfirst]

/-- A plain line leaves the outline as it is. -/
theorem after_of_plain (hfirst : first.bracket = .plain) : o.after (first :: rest) = o := by
  rw [after_cons h, hfirst]

end After

variable {lines earlier later : List (List Token)} {line : List Token}

/-- The outline behind one more line is the outline before it, with the line. -/
theorem behind_concat (lines : List (List Token)) (line : List Token) :
    behind (lines ++ [line]) = (behind lines).after line := by
  unfold behind
  rw [List.foldl_append]
  rfl

/-- A logical line begins where its first token stands. -/
theorem exists_line_eq_startOf (h : line ≠ []) : ∃ t ∈ line, t.line = startOf line := by
  cases line with
  | nil => exact absurd rfl h
  | cons first rest => exact ⟨first, List.mem_cons_self, rfl⟩

/-- Lines of a text begin in their order. -/
theorem InOrder.startOf_lt (h : InOrder lines) (hlines : lines = earlier ++ line :: later) :
    (∀ before ∈ earlier, startOf before < startOf line) ∧
      ∀ behind ∈ later, ∀ t ∈ line, t.line < startOf behind := by
  have hapart := h.apart
  rw [hlines] at hapart
  obtain ⟨-, hlater, hcross⟩ := List.pairwise_append.1 hapart
  refine ⟨fun before hbefore => ?_, (List.pairwise_cons.1 hlater).1⟩
  have hne : before ≠ [] := h.nonempty before (by rw [hlines]; exact List.mem_append_left _ hbefore)
  obtain ⟨t, ht, hstart⟩ := exists_line_eq_startOf hne
  rw [← hstart]
  exact hcross before hbefore line List.mem_cons_self t ht

/-- What is open where a token stands is what is open behind its logical line. -/
theorem InOrder.openOn_eq (h : InOrder lines) (hlines : lines = earlier ++ line :: later)
    {t : Token} (ht : t ∈ line) : openOn lines t.line = ((behind earlier).after line).opened := by
  obtain ⟨hbefore, hbehind⟩ := h.startOf_lt hlines
  have hstart : startOf line ≤ t.line :=
    h.start line (by rw [hlines]; exact List.mem_append_right _ List.mem_cons_self) t ht
  have hearlier : ∀ other ∈ earlier, decide (startOf other ≤ t.line) = true :=
    fun other hother => decide_eq_true (by have := hbefore other hother; omega)
  have hlater : later.takeWhile (fun other => decide (startOf other ≤ t.line)) = [] := by
    cases later with
    | nil => rfl
    | cons next rest =>
      refine List.takeWhile_cons_of_neg ?_
      have hnext := hbehind next List.mem_cons_self t ht
      simpa using hnext
  unfold openOn
  rw [hlines, List.takeWhile_append_of_pos hearlier, List.takeWhile_cons,
    if_pos (decide_eq_true hstart), hlater, behind_concat]

end Outline

/-- A line of a text with the given number belongs to the body of the sub-circuit that begins on
another one: it lies behind that line and before the end of the sub-circuit, outside the
sub-circuits inside. -/
def InBody (lines : List (List Token)) (start number : Nat) : Prop :=
  start < number ∧ (Outline.openOn lines number).head? = some start

instance (lines : List (List Token)) (start number : Nat) : Decidable (InBody lines start number) :=
  inferInstanceAs (Decidable (_ ∧ _))

end FlatNet
