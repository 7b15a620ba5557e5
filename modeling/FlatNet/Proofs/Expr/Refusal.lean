import FlatNet.Proofs.Expr.Parser
import FlatNet.Proofs.Expr.Scanner
import Mathlib.Data.String.Basic

/-!
# Where reading stops

Whatever has been taken can be completed: behind an operator a number completes it, and behind an
operand only the open parentheses have to be closed.  So a token is refused exactly where the row of
tokens stops being the beginning of one that can be read (`viable_iff_exists_after`).

The failure is placed at that token, with one exception.  A token that stands behind a complete
operand inside a parenthesis or an argument list, where that could be closed, is passed over, and
the failure is placed behind it.
-/

set_option autoImplicit false

namespace FlatNet.Expr

/-- The row of tokens is read as an expression. -/
def Accepted (ts : List Token) : Prop :=
  ∃ (length : Nat) (placed : List Placed) (e : Expr),
    placed.map Placed.token = ts ∧ Parsing.run length Parsing.start placed = .ok e

/-- The row of tokens is the beginning of one that is read as an expression. -/
def Viable (ts : List Token) : Prop := ∃ us, Accepted (ts ++ us)

namespace Parsing

/-! ## Completing what has been taken -/

/-- Completing frames leaves no more of them. -/
theorem length_settle_le (strength : Nat) (e : Expr) (frames : List Frame) :
    (settle strength e frames).2.length ≤ frames.length := by
  fun_induction settle strength e frames with
  | case1 e lhs op frames hlt ih => simp only [List.length_cons]; omega
  | case3 e frames hlt ih => simp only [List.length_cons]; omega
  | case5 e frames hlt ih => simp only [List.length_cons]; omega
  | _ => simp

/-- At the end of a phrase nothing is left open but parentheses and argument lists. -/
theorem settle_zero_cases (e : Expr) (frames : List Frame) :
    (settle 0 e frames).2 = [] ∨ (∃ below, (settle 0 e frames).2 = .group :: below) ∨
      ∃ name args below, (settle 0 e frames).2 = .call name args :: below := by
  have hdemand : ∀ op : BinaryOp, 0 < op.rightDemand := by
    intro op
    cases op <;> decide
  generalize hzero : 0 = strength
  fun_induction settle strength e frames with
  | case1 e lhs op frames hlt ih => exact ih
  | case2 e lhs op frames hlt =>
    have hpos := hdemand op
    omega
  | case3 e frames hlt ih => exact ih
  | case4 e frames hlt =>
    simp only [minusStrength] at hlt
    omega
  | case5 e frames hlt ih => exact ih
  | case6 e frames hlt =>
    simp only [minusStrength] at hlt
    omega
  | case7 e frames hleft hminus hplus =>
    cases frames with
    | nil => simp
    | cons frame below =>
      cases frame with
      | group => simp
      | call name args => simp
      | left lhs op => exact absurd rfl (hleft lhs op below)
      | minus => exact absurd rfl (hminus below)
      | plus => exact absurd rfl (hplus below)

/-- A closing parenthesis behind an operand closes the innermost one that is open. -/
theorem afterValue_closing_of_group {e : Expr} {frames below : List Frame}
    (h : (settle 0 e frames).2 = .group :: below) :
    afterValue e frames .closing = .ok ⟨.value (settle 0 e frames).1, below⟩ := by
  have hpair : settle 0 e frames = ((settle 0 e frames).1, .group :: below) := Prod.ext rfl h
  rw [afterValue, hpair]

/-- A closing parenthesis behind an argument completes the call that is open. -/
theorem afterValue_closing_of_call {e : Expr} {frames below : List Frame} {name : String}
    {args : List Expr} (h : (settle 0 e frames).2 = .call name args :: below) :
    afterValue e frames .closing =
      .ok ⟨.value (call name (args.reverse ++ [(settle 0 e frames).1])), below⟩ := by
  have hpair : settle 0 e frames = ((settle 0 e frames).1, .call name args :: below) :=
    Prod.ext rfl h
  rw [afterValue, hpair]

/-- Behind an operand closing what is open completes the expression. -/
theorem exists_finish_of_operand {s : Parsing} {e : Expr} (h : s.operand? = some e) :
    ∃ us s' e', s.after us = some s' ∧ s'.finish = .ok e' := by
  induction hlength : s.frames.length using Nat.strongRecOn generalizing s e with
  | ind n ih =>
    have hclosing : s.step .closing = afterValue e s.frames .closing :=
      step_of_operand h (by simp)
    have hle := length_settle_le 0 e s.frames
    -- each parenthesis that is closed leaves fewer frames
    have hclosed : ∀ (value : Expr) (below : List Frame), below.length < s.frames.length →
        s.step .closing = .ok ⟨.value value, below⟩ →
        ∃ us s' e', s.after us = some s' ∧ s'.finish = .ok e' := by
      intro value below hlt hstep
      obtain ⟨us, s', e', hafter, hfinish⟩ :=
        ih below.length (by omega) (s := ⟨.value value, below⟩) rfl rfl
      exact ⟨.closing :: us, s', e', by rw [after_cons_of_step hstep, hafter], hfinish⟩
    rcases settle_zero_cases e s.frames with hnil | ⟨below, hgroup⟩ | ⟨name, args, below, hcall⟩
    · have hpair : settle 0 e s.frames = ((settle 0 e s.frames).1, []) := Prod.ext rfl hnil
      refine ⟨[], s, (settle 0 e s.frames).1, rfl, ?_⟩
      rw [finish_of_operand h, complete, hpair]
    · rw [hgroup, List.length_cons] at hle
      apply hclosed _ below (by omega)
      rw [hclosing, afterValue_closing_of_group hgroup]
    · rw [hcall, List.length_cons] at hle
      apply hclosed _ below (by omega)
      rw [hclosing, afterValue_closing_of_call hcall]

/-- Whatever has been taken can be completed. -/
theorem exists_finish (s : Parsing) : ∃ us s' e, s.after us = some s' ∧ s'.finish = .ok e := by
  cases hoperand : s.operand? with
  | some e => exact exists_finish_of_operand hoperand
  | none =>
    obtain ⟨phase, frames⟩ := s
    cases phase with
    | due =>
      -- a number stands where an operand is due
      have hstep : step ⟨.due, frames⟩ (.number default) = .ok ⟨.value (num default), frames⟩ := rfl
      obtain ⟨us, s', e, hafter, hfinish⟩ :=
        exists_finish_of_operand (s := ⟨.value (num default), frames⟩) rfl
      exact ⟨.number default :: us, s', e, by rw [after_cons_of_step hstep, hafter], hfinish⟩
    | named name => simp [operand?] at hoperand
    | value e => simp [operand?] at hoperand

end Parsing

open Parsing (start)

/-- A row of tokens is read exactly if none of them is refused and the end is not. -/
theorem accepted_iff {ts : List Token} :
    Accepted ts ↔ ∃ s e, start.after ts = some s ∧ s.finish = .ok e := by
  constructor
  · rintro ⟨length, placed, e, rfl, hrun⟩
    obtain ⟨s, hafter, hfinish⟩ := (Parsing.run_eq_ok_iff _ _ _ _).1 hrun
    exact ⟨s, e, hafter, hfinish⟩
  · rintro ⟨s, e, hafter, hfinish⟩
    have htokens : (ts.map (Placed.mk 0)).map Placed.token = ts := by
      rw [List.map_map]
      exact List.map_id ts
    refine ⟨0, ts.map (Placed.mk 0), e, htokens, ?_⟩
    rw [Parsing.run_eq_ok_iff, htokens]
    exact ⟨s, hafter, hfinish⟩

/-- A row of tokens is the beginning of one that is read, exactly if all its tokens are taken. -/
theorem viable_iff_exists_after {ts : List Token} :
    Viable ts ↔ ∃ s, start.after ts = some s := by
  constructor
  · rintro ⟨us, haccepted⟩
    obtain ⟨s, e, hafter, -⟩ := accepted_iff.1 haccepted
    rw [Parsing.after_append] at hafter
    obtain ⟨s', hs', -⟩ := Option.bind_eq_some_iff.1 hafter
    exact ⟨s', hs'⟩
  · rintro ⟨s, hafter⟩
    obtain ⟨us, s', e, hafter', hfinish⟩ := s.exists_finish
    refine ⟨us, accepted_iff.2 ⟨s', e, ?_, hfinish⟩⟩
    rw [Parsing.after_append_of_after hafter, hafter']

instance (ts : List Token) : Decidable (Viable ts) :=
  decidable_of_iff ((start.after ts).isSome = true)
    (by rw [viable_iff_exists_after, Option.isSome_iff_exists])

/-- The beginning of a viable row is viable. -/
theorem Viable.of_append {ts : List Token} (us : List Token) (h : Viable (ts ++ us)) :
    Viable ts := by
  obtain ⟨vs, haccepted⟩ := h
  exact ⟨us ++ vs, by rwa [List.append_assoc] at haccepted⟩

/-- One more token can be added to a row exactly if it is taken. -/
theorem viable_concat_iff {s : Parsing} {ts : List Token} (h : start.after ts = some s)
    (t : Token) : Viable (ts ++ [t]) ↔ ∃ s', s.step t = .ok s' := by
  rw [viable_iff_exists_after, Parsing.after_append_of_after h]
  cases hstep : s.step t with
  | ok s' => simp [Parsing.after_cons_of_step hstep]
  | error r => simp [Parsing.after, hstep, Except.toOption]

/-! ## Refusals -/

namespace Parsing

/-- What is refused behind an operand is refused for what is open around it. -/
theorem eq_refusal_of_afterValue {e : Expr} {frames : List Frame} {t : Token} {r : Refusal}
    (h : afterValue e frames t = .error r) : r = refusal t (settle 0 e frames).2 := by
  cases t with
  | operator op => simp [afterValue] at h
  | closing =>
    rw [afterValue] at h
    split at h <;> simp_all
  | comma =>
    rw [afterValue] at h
    split at h <;> simp_all
  | number value => simpa [afterValue, eq_comm] using h
  | name name => simpa [afterValue, eq_comm] using h
  | opening => simpa [afterValue, eq_comm] using h

/-- A token that is refused behind an operand is passed over exactly if a parenthesis is open there
that could be closed. -/
theorem afterValue_behind_iff {e : Expr} {frames : List Frame} {t : Token} {r : Refusal}
    (h : afterValue e frames t = .error r) :
    (∃ fault, r = .behind fault) ↔ ∃ s, afterValue e frames .closing = .ok s := by
  rw [eq_refusal_of_afterValue h]
  rcases settle_zero_cases e frames with hnil | ⟨below, hgroup⟩ | ⟨name, args, below, hcall⟩
  · have hpair : settle 0 e frames = ((settle 0 e frames).1, []) := Prod.ext rfl hnil
    rw [hnil, afterValue, hpair]
    simp [refusal]
  · rw [hgroup, afterValue_closing_of_group hgroup]
    simp [refusal]
  · rw [hcall, afterValue_closing_of_call hcall]
    simp [refusal]

/-- Where an operand is due no token is passed over. -/
theorem eq_here_of_whenDue {frames : List Frame} {t : Token} {r : Refusal}
    (h : whenDue frames t = .error r) : ∃ fault, r = .here fault := by
  unfold whenDue at h
  split at h
  case h_6 => split at h <;> cases h; exact ⟨_, rfl⟩
  all_goals cases h
  exact ⟨_, rfl⟩

/-- A refused token is passed over exactly if a closing parenthesis and an operator could both stand
in its place. -/
theorem behind_iff {s : Parsing} {t : Token} {r : Refusal} (h : s.step t = .error r) :
    (∃ fault, r = .behind fault) ↔
      (∃ s', s.step .closing = .ok s') ∧ ∃ s', s.step (.operator .mul) = .ok s' := by
  cases hoperand : s.operand? with
  | none =>
    obtain ⟨phase, frames⟩ := s
    cases phase with
    | due =>
      obtain ⟨fault, rfl⟩ := eq_here_of_whenDue h
      simp [step, whenDue]
    | named name => simp [operand?] at hoperand
    | value e => simp [operand?] at hoperand
  | some e =>
    have hafter : afterValue e s.frames t = .error r := by
      by_cases ht : t = .opening
      · obtain ⟨phase, frames⟩ := s
        cases phase <;> simp_all [operand?, step]
      · rw [← step_of_operand hoperand ht, h]
    rw [afterValue_behind_iff hafter, step_of_operand hoperand (by simp),
      step_of_operand hoperand (by simp)]
    simp [afterValue]

/-- Reading fails at the end of the tokens, at a refused token, or behind it. -/
theorem run_eq_error {length : Nat} {s : Parsing} {placed : List Placed} {failure : Failure}
    (h : run length s placed = .error failure) :
    (∃ s', s.after (placed.map Placed.token) = some s' ∧ failure.offset = length) ∨
      ∃ before bad behind s' r, placed = before ++ bad :: behind ∧
        s.after (before.map Placed.token) = some s' ∧ s'.step bad.token = .error r ∧
        ((∃ fault, r = .here fault) ∧ failure.offset = bad.offset ∨
          (∃ fault, r = .behind fault) ∧ failure.offset = nextOffset length behind) := by
  induction placed generalizing s with
  | nil =>
    left
    refine ⟨s, rfl, ?_⟩
    rw [run] at h
    split at h
    · simp at h
    · simp only [Except.error.injEq] at h
      rw [← h]
  | cons p rest ih =>
    rw [run] at h
    split at h
    · rename_i s' hstep
      rcases ih h with ⟨s'', hafter, hoffset⟩ |
          ⟨before, bad, behind, s'', r, rfl, hafter, hbad, hoffset⟩
      · left
        exact ⟨s'', by rw [List.map_cons, after_cons_of_step hstep, hafter], hoffset⟩
      · right
        refine ⟨p :: before, bad, behind, s'', r, rfl, ?_, hbad, hoffset⟩
        rw [List.map_cons, after_cons_of_step hstep, hafter]
    · rename_i fault hstep
      simp only [Except.error.injEq] at h
      right
      exact ⟨[], p, rest, s, _, rfl, rfl, hstep, .inl ⟨⟨fault, rfl⟩, by rw [← h]⟩⟩
    · rename_i fault hstep
      simp only [Except.error.injEq] at h
      right
      exact ⟨[], p, rest, s, _, rfl, rfl, hstep, .inr ⟨⟨fault, rfl⟩, by rw [← h]⟩⟩

end Parsing

/-! ## Offsets -/

/-- The token stands in the text at its offset, counted in bytes. -/
def Placed.StandsIn (p : Placed) (text : String) : Prop :=
  ∃ before rest behind : List Char, text.toList = before ++ rest ∧
    (String.ofList before).utf8ByteSize = p.offset ∧ Token.readOne rest = .ok (p.token, behind)

namespace Token

open Text (isAscii)

/-- A character of ASCII is one byte. -/
theorem utf8ByteSize_of_isAscii {cs : List Char} (h : ∀ c ∈ cs, isAscii c = true) :
    (String.ofList cs).utf8ByteSize = cs.length := by
  rw [String.utf8ByteSize_ofList]
  induction cs with
  | nil => simp
  | cons c cs ih =>
    obtain ⟨hc, hcs⟩ := List.forall_mem_cons.1 h
    have hcode : c.toNat < 128 := of_decide_eq_true hc
    have hone : c.utf8Size = 1 := by
      rw [Char.utf8Size_eq_one_iff, UInt32.le_iff_toNat_le]
      exact Nat.le_of_lt_succ hcode
    simp only [String.utf8Len_cons, List.length_cons, ih hcs, hone]

/-- A token is cut off where it stands, and the next one begins behind its first character. -/
theorem exists_split_of_scanFrom {offset : Nat} {cs : List Char} {before behind : List Placed}
    {p : Placed} (h : scanFrom offset cs = .ok (before ++ p :: behind)) :
    ∃ front rest tail : List Char, cs = front ++ rest ∧ p.offset = offset + front.length ∧
      readOne rest = .ok (p.token, tail) ∧
      p.offset < Parsing.nextOffset (offset + cs.length) behind := by
  induction offset, cs using scanFrom.induct generalizing before p behind with
  | case1 offset => simp [scanFrom] at h
  | case2 offset c cs hblank ih =>
    rw [scanFrom_of_isBlank hblank] at h
    obtain ⟨front, rest, tail, rfl, hoffset, hread, hlt⟩ := ih h
    refine ⟨c :: front, rest, tail, rfl, ?_, hread, ?_⟩
    · simp only [List.length_cons]
      omega
    · rwa [show offset + (c :: (front ++ rest)).length = offset + 1 + (front ++ rest).length by
        simp only [List.length_cons]; omega]
  | case3 offset c cs hblank fault hfault =>
    rw [scanFrom, if_neg hblank] at h
    split at h
    · simp at h
    · simp_all
  | case4 offset c cs hblank t rest hread failure hfailure ih =>
    rw [scanFrom_of_readOne (by simpa using hblank) hread, hfailure] at h
    simp [Except.map] at h
  | case5 offset c cs hblank t rest hread ps hps ih =>
    rw [scanFrom_of_readOne (by simpa using hblank) hread, hps] at h
    have hshorter := length_readOne_lt hread
    have hend : offset + ((c :: cs).length - rest.length) + rest.length =
        offset + (c :: cs).length := by omega
    have hplaced : (⟨offset, t⟩ :: ps : List Placed) = before ++ p :: behind := by
      simpa [Except.map] using h
    cases before with
    | nil =>
      obtain ⟨rfl, rfl⟩ := List.cons.inj hplaced
      refine ⟨[], c :: cs, rest, rfl, rfl, hread, ?_⟩
      cases ps with
      | nil =>
        simp only [Parsing.nextOffset]
        omega
      | cons q qs =>
        have hnext : scanFrom (offset + ((c :: cs).length - rest.length)) rest =
            .ok ([] ++ q :: qs) := hps
        obtain ⟨front, -, -, -, hoffset, -, -⟩ := ih hnext
        simp only [Parsing.nextOffset, hoffset]
        omega
    | cons first before =>
      obtain ⟨-, rfl⟩ := List.cons.inj hplaced
      obtain ⟨front, rest', tail, rfl, hoffset, hread', hlt⟩ := ih hps
      obtain ⟨token, hascii⟩ := readsAscii_readOne hread
      refine ⟨token ++ front, rest', tail, ?_, ?_, hread', ?_⟩
      · rw [hascii.1, List.append_assoc]
      · have hlength := congrArg List.length hascii.1
        simp only [List.length_append] at hlength hoffset ⊢
        omega
      · rwa [hend] at hlt

end Token

/-! ## The first token that cannot follow -/

/-- The text is cut into tokens, and `bad` is the first one up to which they are the beginning of no
row that is read as an expression. -/
structure FirstBad (text : String) (before : List Placed) (bad : Placed) (behind : List Placed) :
    Prop where
  scan : Token.scan text.toList = .ok (before ++ bad :: behind)
  viable : Viable (before.map Placed.token)
  bad : ¬Viable (before.map Placed.token ++ [bad.token])

/-- Whenever the text is refused, the failure is placed at the first token up to which the tokens
are the beginning of no expression, or at the end of the text if all of them are one. -/
def PointsAtFirstBad (text : String) : Prop :=
  ∀ (placed : List Placed) (failure : Failure), Token.scan text.toList = .ok placed →
    parse text = .error failure →
    (∃ before bad behind, FirstBad text before bad behind ∧ bad.StandsIn text ∧
      failure.offset = bad.offset) ∨
    Viable (placed.map Placed.token) ∧ failure.offset = text.utf8ByteSize

/-- The tokens end with an operand inside a parenthesis or an argument list: an operator may follow,
and a closing parenthesis as well. -/
def EndsInside (ts : List Token) : Prop :=
  Viable (ts ++ [.operator .mul]) ∧ Viable (ts ++ [.closing])

instance (ts : List Token) : Decidable (EndsInside ts) := inferInstanceAs (Decidable (_ ∧ _))

section Text

variable {text : String} {before behind : List Placed} {bad : Placed}

/-- A text that is scanned is ASCII, so it has as many bytes as characters. -/
theorem utf8ByteSize_of_scan {placed : List Placed} (h : Token.scan text.toList = .ok placed) :
    text.utf8ByteSize = text.toList.length := by
  have hsize := Token.utf8ByteSize_of_isAscii (Token.isAscii_of_scanFrom h)
  rwa [String.ofList_toList] at hsize

/-- A token of a text stands in it at its offset. -/
theorem standsIn_of_scan (h : Token.scan text.toList = .ok (before ++ bad :: behind)) :
    bad.StandsIn text := by
  obtain ⟨front, rest, tail, htext, hoffset, hread, -⟩ := Token.exists_split_of_scanFrom h
  have hascii := Token.isAscii_of_scanFrom h
  refine ⟨front, rest, tail, htext, ?_, hread⟩
  rw [Token.utf8ByteSize_of_isAscii, hoffset, Nat.zero_add]
  intro c hc
  apply hascii
  rw [htext]
  exact List.mem_append_left rest hc

/-- No expression begins with the tokens up to the first bad one. -/
theorem FirstBad.not_viable (h : FirstBad text before bad behind) :
    ¬Viable ((before ++ bad :: behind).map Placed.token) := by
  intro hviable
  apply h.bad
  apply Viable.of_append (behind.map Placed.token)
  simpa using hviable

/-- There is only one first bad token. -/
theorem FirstBad.unique {before' behind' : List Placed} {bad' : Placed}
    (h : FirstBad text before bad behind) (h' : FirstBad text before' bad' behind') :
    before = before' ∧ bad = bad' ∧ behind = behind' := by
  have hsame : before ++ bad :: behind = before' ++ bad' :: behind' := by
    have hscan := h.scan
    rw [h'.scan] at hscan
    exact (Except.ok.inj hscan).symm
  -- neither beginning reaches beyond the bad token of the other one
  rcases List.append_eq_append_iff.1 hsame with ⟨more, rfl, hmore⟩ | ⟨more, rfl, hmore⟩
  · cases more with
    | nil => simp_all
    | cons p more =>
      obtain ⟨rfl, -⟩ := List.cons.inj hmore
      refine absurd (Viable.of_append (more.map Placed.token) ?_) h.bad
      simpa using h'.viable
  · cases more with
    | nil => simp_all
    | cons p more =>
      obtain ⟨rfl, -⟩ := List.cons.inj hmore
      refine absurd (Viable.of_append (more.map Placed.token) ?_) h'.bad
      simpa using h.viable

/-- A text that is scanned is parsed by running over its tokens. -/
theorem parse_of_scan {placed : List Placed} (h : Token.scan text.toList = .ok placed) :
    parse text = Parsing.run text.utf8ByteSize start placed := by
  rw [parse, parseChars, h, utf8ByteSize_of_scan h]

/-- A text that can be cut into tokens and is refused has a first bad token, unless all its tokens
are the beginning of an expression. -/
theorem exists_firstBad_of_parse {placed : List Placed} {failure : Failure}
    (hscan : Token.scan text.toList = .ok placed) (h : parse text = .error failure) :
    (∃ before bad behind, FirstBad text before bad behind ∧
      (¬EndsInside (before.map Placed.token) ∧ failure.offset = bad.offset ∨
        EndsInside (before.map Placed.token) ∧
          failure.offset = Parsing.nextOffset text.utf8ByteSize behind)) ∨
      Viable (placed.map Placed.token) ∧ failure.offset = text.utf8ByteSize := by
  rw [parse_of_scan hscan] at h
  rcases Parsing.run_eq_error h with ⟨s, hafter, hoffset⟩ |
      ⟨before, bad, behind, s, r, rfl, hafter, hstep, hoffset⟩
  · exact .inr ⟨viable_iff_exists_after.2 ⟨s, hafter⟩, hoffset⟩
  · have hbad : ¬Viable (before.map Placed.token ++ [bad.token]) := by
      rw [viable_concat_iff hafter, hstep]
      simp
    have hinside : EndsInside (before.map Placed.token) ↔ ∃ fault, r = .behind fault := by
      rw [EndsInside, viable_concat_iff hafter, viable_concat_iff hafter, Parsing.behind_iff hstep,
        and_comm]
    refine .inl ⟨before, bad, behind,
      ⟨hscan, viable_iff_exists_after.2 ⟨s, hafter⟩, hbad⟩, ?_⟩
    rw [hinside]
    rcases hoffset with ⟨⟨fault, rfl⟩, hoffset⟩ | ⟨hbehind, hoffset⟩
    · exact .inl ⟨by simp, hoffset⟩
    · exact .inr ⟨hbehind, hoffset⟩

/-- A text with a bad token is refused, at the first one, or behind it if the tokens before it end
inside a parenthesis. -/
theorem FirstBad.parse_eq_error (h : FirstBad text before bad behind) :
    ∃ failure, parse text = .error failure ∧
      (¬EndsInside (before.map Placed.token) ∧ failure.offset = bad.offset ∨
        EndsInside (before.map Placed.token) ∧
          failure.offset = Parsing.nextOffset text.utf8ByteSize behind) := by
  cases hparse : parse text with
  | ok e =>
    rw [parse_of_scan h.scan] at hparse
    refine absurd ⟨[], ?_⟩ h.not_viable
    rw [List.append_nil]
    exact ⟨_, _, e, rfl, hparse⟩
  | error failure =>
    refine ⟨failure, rfl, ?_⟩
    rcases exists_firstBad_of_parse h.scan hparse with
      ⟨before', bad', behind', h', hoffset⟩ | ⟨hviable, -⟩
    · obtain ⟨rfl, rfl, rfl⟩ := h.unique h'
      exact hoffset
    · exact absurd hviable h.not_viable

/-- Behind tokens that end inside a parenthesis the first bad token is passed over. -/
theorem FirstBad.passes_over (h : FirstBad text before bad behind)
    (hinside : EndsInside (before.map Placed.token)) :
    ∃ failure, parse text = .error failure ∧
      failure.offset = Parsing.nextOffset text.utf8ByteSize behind ∧
      bad.offset < failure.offset := by
  obtain ⟨failure, hparse, ⟨houtside, -⟩ | ⟨-, hoffset⟩⟩ := h.parse_eq_error
  · exact absurd hinside houtside
  · obtain ⟨-, -, -, -, -, -, hlt⟩ := Token.exists_split_of_scanFrom h.scan
    refine ⟨failure, hparse, hoffset, ?_⟩
    rwa [hoffset, utf8ByteSize_of_scan h.scan, ← Nat.zero_add text.toList.length]

/-- Behind a complete operand inside a parenthesis the failure is not placed at the first bad
token. -/
theorem FirstBad.not_pointsAtFirstBad (h : FirstBad text before bad behind)
    (hinside : EndsInside (before.map Placed.token)) : ¬PointsAtFirstBad text := by
  intro hpoints
  obtain ⟨failure, hparse, -, hlt⟩ := h.passes_over hinside
  rcases hpoints _ failure h.scan hparse with
    ⟨before', bad', behind', h', -, hoffset⟩ | ⟨hviable, -⟩
  · obtain ⟨rfl, rfl, rfl⟩ := h.unique h'
    omega
  · exact h.not_viable hviable

/-- A failure is placed at the first token up to which the tokens are the beginning of no
expression, unless the tokens before it end inside a parenthesis or an argument list; in this case
it is placed at the next token, or at the end of the text. -/
theorem pointsAtFirstBad_iff (text : String) :
    (PointsAtFirstBad text ↔
      ∀ before bad behind, FirstBad text before bad behind →
        ¬EndsInside (before.map Placed.token)) ∧
    ∀ before bad behind, FirstBad text before bad behind →
      EndsInside (before.map Placed.token) →
      ∃ failure, parse text = .error failure ∧
        failure.offset = Parsing.nextOffset text.utf8ByteSize behind ∧
        bad.offset < failure.offset := by
  refine ⟨⟨?_, ?_⟩, fun _ _ _ h hinside => h.passes_over hinside⟩
  · intro hpoints before bad behind h hinside
    exact h.not_pointsAtFirstBad hinside hpoints
  · intro houtside placed failure hscan hparse
    rcases exists_firstBad_of_parse hscan hparse with ⟨before, bad, behind, h, hoffset⟩ | hend
    · left
      refine ⟨before, bad, behind, h, standsIn_of_scan h.scan, ?_⟩
      rcases hoffset with ⟨-, hoffset⟩ | ⟨hinside, -⟩
      · exact hoffset
      · exact absurd hinside (houtside before bad behind h)
    · exact .inr hend

end Text

/-- In a parenthesis the second of three names cannot follow the first one; the failure is placed at
the third. -/
theorem not_pointsAtFirstBad_unclosed : ¬PointsAtFirstBad "(a b c" := by
  have hbad : FirstBad "(a b c" [⟨0, .opening⟩, ⟨1, .name "a"⟩] ⟨3, .name "b"⟩ [⟨5, .name "c"⟩] :=
    ⟨by decide +kernel, by decide, by decide⟩
  exact hbad.not_pointsAtFirstBad (by decide)

end FlatNet.Expr
