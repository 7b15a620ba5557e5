import FlatNet.Proofs.Expr.Grammar

/-!
# What is read

The parser reads exactly the rows of tokens that have a derivation, and the expression that it
returns is the tree of the derivation (`parse_eq_ok_iff_exists_scan`).

That every derivation is read is proved by recursion on it.  Behind a phrase the parser holds an
operand and frames that are not yet completed; `Holds k e frames s` says that every operator weaker
than `k`, when it comes next, completes them to the tree `e` above the frames that were there
before the phrase.

That everything read has a derivation is an invariant: `Opened frames ts` says how the frames
spell the tokens behind which the next operand is due.
-/

set_option autoImplicit false

namespace FlatNet.Expr

/-! ## Completing frames -/

/-- An operator of this strength completes none of the frames. -/
def Closed (strength : Nat) : List Frame → Prop
  | .left _ op :: _ => op.rightDemand ≤ strength
  | .minus :: _ => 4 ≤ strength
  | .plus :: _ => 4 ≤ strength
  | _ => True

/-- An operator leaves frames alone of which it completes none. -/
theorem settle_of_closed {strength : Nat} {frames : List Frame} (h : Closed strength frames)
    (e : Expr) : settle strength e frames = (e, frames) := by
  cases frames with
  | nil => simp [settle]
  | cons frame frames =>
    cases frame with
    | group => simp [settle]
    | call name args => simp [settle]
    | left lhs op =>
      have hlt : ¬strength < op.rightDemand := Nat.not_lt.mpr h
      simp [settle, hlt]
    | minus =>
      have hlt : ¬strength < 4 := Nat.not_lt.mpr h
      simp [settle, minusStrength, hlt]
    | plus =>
      have hlt : ¬strength < 4 := Nat.not_lt.mpr h
      simp [settle, minusStrength, hlt]

/-- A stronger operator does not complete what a weaker one leaves. -/
theorem Closed.mono {strength strength' : Nat} {frames : List Frame} (h : Closed strength frames)
    (hle : strength ≤ strength') : Closed strength' frames := by
  cases frames with
  | nil => trivial
  | cons frame frames =>
    cases frame <;> simp only [Closed] at h ⊢ <;> omega

/-- No operator demands more of its right operand than the power does. -/
theorem rightDemand_le_four (op : BinaryOp) : op.rightDemand ≤ 4 := by
  cases op <;> decide

/-- The operator of power completes nothing. -/
theorem closed_four (frames : List Frame) : Closed 4 frames := by
  cases frames with
  | nil => trivial
  | cons frame frames => cases frame <;> simp [Closed, rightDemand_le_four]

/-- A weaker operator completes the operation that waits for its right operand. -/
theorem settle_left_of_lt {strength : Nat} {op : BinaryOp} (h : strength < op.rightDemand)
    (e lhs : Expr) (frames : List Frame) :
    settle strength e (.left lhs op :: frames) = settle strength (binary op lhs e) frames := by
  simp [settle, h]

/-- An operator weaker than the power completes a minus sign that waits for its operand. -/
theorem settle_minus_of_lt {strength : Nat} (h : strength < 4) (e : Expr) (frames : List Frame) :
    settle strength e (.minus :: frames) = settle strength (negated e) frames := by
  simp [settle, minusStrength, h]

/-- An operator weaker than the power completes a plus sign that waits for its operand. -/
theorem settle_plus_of_lt {strength : Nat} (h : strength < 4) (e : Expr) (frames : List Frame) :
    settle strength e (.plus :: frames) = settle strength e frames := by
  simp [settle, minusStrength, h]

/-- The operators of a sum demand a product on their right. -/
@[simp] theorem Grammar.Additive.rightDemand_op (op : Grammar.Additive) :
    op.op.rightDemand = 2 := by
  cases op <;> rfl

/-- The operators of a product demand a factor on their right. -/
@[simp] theorem Grammar.Multiplicative.rightDemand_op (op : Grammar.Multiplicative) :
    op.op.rightDemand = 3 := by
  cases op <;> rfl

/-- A power may stand on the right of a power. -/
@[simp] theorem rightDemand_pow : BinaryOp.pow.rightDemand = 4 := rfl

namespace Parsing

/-! ## Taking several tokens -/

/-- The state behind a row of tokens, if none of them is refused. -/
def after (s : Parsing) (ts : List Token) : Option Parsing :=
  ts.foldlM (fun s t => (s.step t).toOption) s

/-- No tokens leave the state as it is. -/
@[simp] theorem after_nil (s : Parsing) : s.after [] = some s := rfl

/-- Two rows of tokens are read one after the other. -/
theorem after_append (s : Parsing) (ts us : List Token) :
    s.after (ts ++ us) = (s.after ts).bind fun s => s.after us := by
  simp only [after, List.foldlM_append]
  rfl

/-- Behind a token that is taken, the others are read from the state that it leaves. -/
theorem after_cons_of_step {s s' : Parsing} {t : Token} (h : s.step t = .ok s')
    (ts : List Token) : s.after (t :: ts) = s'.after ts := by
  simp [after, h, Except.toOption]

/-- Behind a row of tokens that is read, the others are read from the state that it leaves. -/
theorem after_append_of_after {s s' : Parsing} {ts : List Token} (h : s.after ts = some s')
    (us : List Token) : s.after (ts ++ us) = s'.after us := by
  simp [after_append, h]

/-- Behind a row of tokens and one that is taken, the others are read from the state that it
leaves. -/
theorem after_append_cons {s s' s'' : Parsing} {ts : List Token} {t : Token}
    (h : s.after ts = some s') (hstep : s'.step t = .ok s'') (us : List Token) :
    s.after (ts ++ t :: us) = s''.after us := by
  rw [after_append_of_after h, after_cons_of_step hstep]

/-- Reading a text to its end takes its tokens and then finishes. -/
theorem run_eq_ok_iff (length : Nat) (s : Parsing) (placed : List Placed) (e : Expr) :
    run length s placed = .ok e ↔
      ∃ s', s.after (placed.map Placed.token) = some s' ∧ s'.finish = .ok e := by
  induction placed generalizing s with
  | nil =>
    simp only [run, List.map_nil, after_nil, Option.some.injEq, exists_eq_left']
    cases s.finish <;> simp
  | cons p rest ih =>
    simp only [run, List.map_cons]
    cases hstep : s.step p.token with
    | ok s' =>
      rw [after_cons_of_step hstep]
      apply ih
    | error refusal => cases refusal <;> simp [after, hstep, Except.toOption]

/-- The operand that has just been read. -/
def operand? (s : Parsing) : Option Expr :=
  match s.phase with
  | .due => none
  | .named name => some (sym name)
  | .value e => some e

/-- Behind an operand a token is read the same way, be the operand a name or a value; only a
parenthesis tells them apart. -/
theorem step_of_operand {s : Parsing} {e : Expr} {t : Token} (h : s.operand? = some e)
    (ht : t ≠ .opening) : s.step t = afterValue e s.frames t := by
  obtain ⟨phase, frames⟩ := s
  cases phase with
  | due => simp [operand?] at h
  | named name =>
    obtain rfl : sym name = e := by simpa [operand?] using h
    cases t <;> first | rfl | contradiction
  | value e' =>
    obtain rfl : e' = e := by simpa [operand?] using h
    rfl

/-- At the end behind an operand the frames are completed to one expression. -/
theorem finish_of_operand {s : Parsing} {e : Expr} (h : s.operand? = some e) :
    s.finish = complete e s.frames := by
  obtain ⟨phase, frames⟩ := s
  cases phase with
  | due => simp [operand?] at h
  | named name =>
    obtain rfl : sym name = e := by simpa [operand?] using h
    rfl
  | value e' =>
    obtain rfl : e' = e := by simpa [operand?] using h
    rfl

/-! ## Every derivation is read -/

/-- Every operator weaker than the given strength finds the operand `e` above the frames. -/
def Holds (strength : Nat) (e : Expr) (frames : List Frame) (s : Parsing) : Prop :=
  ∃ e', s.operand? = some e' ∧ ∀ weak < strength, settle weak e' s.frames = settle weak e frames

/-- What every operator finds that is weaker than a strength is found by those weaker than a lower
one. -/
theorem Holds.mono {strength strength' : Nat} {e : Expr} {frames : List Frame} {s : Parsing}
    (h : Holds strength e frames s) (hle : strength' ≤ strength) : Holds strength' e frames s := by
  obtain ⟨e', hoperand, hsettle⟩ := h
  refine ⟨e', hoperand, ?_⟩
  intro weak hweak
  exact hsettle weak (by omega)

/-- An operand that has just been read is found by every operator. -/
theorem holds_of_operand {strength : Nat} {e : Expr} {s : Parsing} (h : s.operand? = some e) :
    Holds strength e s.frames s :=
  ⟨e, h, fun _ _ => rfl⟩

/-- Completing the frames goes on where the operand has been found. -/
theorem Holds.congr {strength : Nat} {e e' : Expr} {frames frames' : List Frame} {s : Parsing}
    (h : Holds strength e frames s)
    (heq : ∀ weak < strength, settle weak e frames = settle weak e' frames') :
    Holds strength e' frames' s := by
  obtain ⟨operand, hoperand, hsettle⟩ := h
  refine ⟨operand, hoperand, ?_⟩
  intro weak hweak
  rw [hsettle weak hweak, heq weak hweak]

/-- An operator that completes none of the frames waits with the operand as its left one. -/
theorem Holds.step_operator {strength : Nat} {e : Expr} {frames : List Frame} {s : Parsing}
    (h : Holds strength e frames s) {op : BinaryOp} (hlt : op.strength < strength)
    (hclosed : Closed op.strength frames) :
    s.step (.operator op) = .ok ⟨.due, .left e op :: frames⟩ := by
  obtain ⟨e', hoperand, hsettle⟩ := h
  rw [step_of_operand hoperand (by simp), afterValue, hsettle _ hlt, settle_of_closed hclosed e]

/-- A closing parenthesis completes the group that it closes. -/
theorem Holds.step_closing {strength : Nat} {e : Expr} {frames : List Frame} {s : Parsing}
    (h : Holds strength e (.group :: frames) s) (hlt : 0 < strength) :
    s.step .closing = .ok ⟨.value e, frames⟩ := by
  obtain ⟨e', hoperand, hsettle⟩ := h
  simp [step_of_operand hoperand, afterValue, hsettle _ hlt, settle]

/-- A closing parenthesis completes the call with its last argument. -/
theorem Holds.step_closing_call {strength : Nat} {e : Expr} {name : String} {args : List Expr}
    {frames : List Frame} {s : Parsing} (h : Holds strength e (.call name args :: frames) s)
    (hlt : 0 < strength) :
    s.step .closing = .ok ⟨.value (call name (args.reverse ++ [e])), frames⟩ := by
  obtain ⟨e', hoperand, hsettle⟩ := h
  simp [step_of_operand hoperand, afterValue, hsettle _ hlt, settle]

/-- A comma completes an argument, and the next one is due. -/
theorem Holds.step_comma {strength : Nat} {e : Expr} {name : String} {args : List Expr}
    {frames : List Frame} {s : Parsing} (h : Holds strength e (.call name args :: frames) s)
    (hlt : 0 < strength) :
    s.step .comma = .ok ⟨.due, .call name (e :: args) :: frames⟩ := by
  obtain ⟨e', hoperand, hsettle⟩ := h
  simp [step_of_operand hoperand, afterValue, hsettle _ hlt, settle]

open Grammar

mutual

/-- The tokens of a sum are read, and its tree is found behind them. -/
theorem reads_sum : (d : Sum) → (frames : List Frame) → Closed 1 frames →
    ∃ s, after ⟨.due, frames⟩ d.tokens = some s ∧ Holds 2 d.tree frames s
  | .mk first rest, frames, hclosed => by
    obtain ⟨s, hafter, hholds⟩ := reads_product first frames (hclosed.mono (by omega))
    obtain ⟨s', hafter', hholds'⟩ := reads_sumTail rest hclosed (hholds.mono (by omega))
    refine ⟨s', ?_, hholds'⟩
    rw [Sum.tokens, after_append_of_after hafter, hafter']

/-- The summands behind the first are read, each of them completing what stands before it. -/
theorem reads_sumTail : (rest : SumTail) → {lhs : Expr} → {frames : List Frame} → {s : Parsing} →
    Closed 1 frames → Holds 2 lhs frames s →
    ∃ s', s.after rest.tokens = some s' ∧ Holds 2 (rest.tree lhs) frames s'
  | .nil, _, _, s, _, hholds => ⟨s, rfl, hholds⟩
  | .cons op next rest, lhs, frames, s, hclosed, hholds => by
    have hstep : s.step (.operator op.op) = .ok ⟨.due, .left lhs op.op :: frames⟩ :=
      hholds.step_operator (by simp) (by simpa using hclosed)
    obtain ⟨s₁, hafter₁, hholds₁⟩ := reads_product next (.left lhs op.op :: frames)
      (by simp [Closed])
    have hlhs : Holds 2 (.binary op.op lhs next.tree) frames s₁ := by
      refine (hholds₁.mono (by omega)).congr ?_
      intro weak hweak
      exact settle_left_of_lt (by simpa using hweak) next.tree lhs frames
    obtain ⟨s₂, hafter₂, hholds₂⟩ := reads_sumTail rest hclosed hlhs
    refine ⟨s₂, ?_, hholds₂⟩
    rw [SumTail.tokens, after_cons_of_step hstep, after_append_of_after hafter₁, hafter₂]

/-- The tokens of a product are read, and its tree is found behind them. -/
theorem reads_product : (d : Product) → (frames : List Frame) → Closed 2 frames →
    ∃ s, after ⟨.due, frames⟩ d.tokens = some s ∧ Holds 3 d.tree frames s
  | .mk first rest, frames, hclosed => by
    obtain ⟨s, hafter, hholds⟩ := reads_factor first frames
    obtain ⟨s', hafter', hholds'⟩ := reads_productTail rest hclosed (hholds.mono (by omega))
    refine ⟨s', ?_, hholds'⟩
    rw [Product.tokens, after_append_of_after hafter, hafter']

/-- The factors behind the first are read, each of them completing what stands before it. -/
theorem reads_productTail : (rest : ProductTail) → {lhs : Expr} → {frames : List Frame} →
    {s : Parsing} → Closed 2 frames → Holds 3 lhs frames s →
    ∃ s', s.after rest.tokens = some s' ∧ Holds 3 (rest.tree lhs) frames s'
  | .nil, _, _, s, _, hholds => ⟨s, rfl, hholds⟩
  | .cons op next rest, lhs, frames, s, hclosed, hholds => by
    have hstep : s.step (.operator op.op) = .ok ⟨.due, .left lhs op.op :: frames⟩ :=
      hholds.step_operator (by simp) (by simpa using hclosed)
    obtain ⟨s₁, hafter₁, hholds₁⟩ := reads_factor next (.left lhs op.op :: frames)
    have hlhs : Holds 3 (.binary op.op lhs next.tree) frames s₁ := by
      refine (hholds₁.mono (by omega)).congr ?_
      intro weak hweak
      exact settle_left_of_lt (by simpa using hweak) next.tree lhs frames
    obtain ⟨s₂, hafter₂, hholds₂⟩ := reads_productTail rest hclosed hlhs
    refine ⟨s₂, ?_, hholds₂⟩
    rw [ProductTail.tokens, after_cons_of_step hstep, after_append_of_after hafter₁, hafter₂]

/-- The tokens of a factor are read, and its tree is found behind them; signs and bases wait in the
frames. -/
theorem reads_factor : (p : Factor) → (frames : List Frame) →
    ∃ s, after ⟨.due, frames⟩ p.tokens = some s ∧ Holds 4 p.tree frames s
  | .base a, frames => by
    obtain ⟨s, hafter, hoperand, rfl⟩ := reads_atom a frames
    exact ⟨s, hafter, holds_of_operand hoperand⟩
  | .raised a exponent, frames => by
    obtain ⟨s, hafter, hoperand, rfl⟩ := reads_atom a frames
    have hholds : Holds 5 a.tree s.frames s := holds_of_operand hoperand
    have hstep : s.step (.operator .pow) = .ok ⟨.due, .left a.tree .pow :: s.frames⟩ :=
      hholds.step_operator (by simp) (closed_four s.frames)
    obtain ⟨s', hafter', hholds'⟩ := reads_factor exponent (.left a.tree .pow :: s.frames)
    refine ⟨s', ?_, hholds'.congr ?_⟩
    · rw [Factor.tokens, after_append_cons hafter hstep, hafter']
    · intro weak hweak
      exact settle_left_of_lt (by simpa using hweak) exponent.tree a.tree s.frames
  | .signed .minus operand, frames => by
    obtain ⟨s, hafter, hholds⟩ := reads_factor operand (.minus :: frames)
    refine ⟨s, ?_, hholds.congr ?_⟩
    · rw [Factor.tokens, after_cons_of_step rfl, hafter]
    · intro weak hweak
      exact settle_minus_of_lt hweak operand.tree frames
  | .signed .plus operand, frames => by
    obtain ⟨s, hafter, hholds⟩ := reads_factor operand (.plus :: frames)
    refine ⟨s, ?_, hholds.congr ?_⟩
    · rw [Factor.tokens, after_cons_of_step rfl, hafter]
    · intro weak hweak
      exact settle_plus_of_lt hweak operand.tree frames

/-- An atom leaves the frames alone. -/
theorem reads_atom : (a : Atom) → (frames : List Frame) →
    ∃ s, after ⟨.due, frames⟩ a.tokens = some s ∧ s.operand? = some a.tree ∧ s.frames = frames
  | .number value, frames => ⟨⟨.value (.num value), frames⟩, rfl, rfl, rfl⟩
  | .name s, frames => ⟨⟨.named s, frames⟩, rfl, rfl, rfl⟩
  | .call function .none, frames => ⟨⟨.value (.call function []), frames⟩, rfl, rfl, rfl⟩
  | .call function (.some first rest), frames => by
    obtain ⟨s, hafter, hholds⟩ := reads_sum first (.call function [] :: frames)
      (by simp [Closed])
    refine ⟨⟨.value (.call function (first.tree :: rest.trees)), frames⟩, ?_, rfl, rfl⟩
    rw [Atom.tokens, after_cons_of_step rfl, after_cons_of_step rfl, Arguments.tokens,
      List.append_assoc, after_append_of_after hafter, reads_argumentsTail rest hholds]
    simp
  | .group inner, frames => by
    obtain ⟨s, hafter, hholds⟩ := reads_sum inner (.group :: frames) (by simp [Closed])
    refine ⟨⟨.value inner.tree, frames⟩, ?_, rfl, rfl⟩
    rw [Atom.tokens, after_cons_of_step rfl,
      after_append_cons hafter (hholds.step_closing (by omega)), after_nil]

/-- The arguments behind the first are read up to the closing parenthesis, which completes the
call. -/
theorem reads_argumentsTail : (rest : ArgumentsTail) → {last : Expr} → {function : String} →
    {args : List Expr} → {frames : List Frame} → {s : Parsing} →
    Holds 2 last (.call function args :: frames) s →
    s.after (rest.tokens ++ [.closing]) =
      some ⟨.value (.call function (args.reverse ++ last :: rest.trees)), frames⟩
  | .nil, _, _, _, _, s, hholds => by
    rw [ArgumentsTail.tokens, List.nil_append,
      after_cons_of_step (hholds.step_closing_call (by omega)), after_nil]
    rfl
  | .cons next rest, last, function, args, frames, s, hholds => by
    obtain ⟨s', hafter, hholds'⟩ := reads_sum next (.call function (last :: args) :: frames)
      (by simp [Closed])
    rw [ArgumentsTail.tokens, List.cons_append, List.append_assoc,
      after_cons_of_step (hholds.step_comma (by omega)), after_append_of_after hafter,
      reads_argumentsTail rest hholds']
    simp [ArgumentsTail.trees]

end

/-! ## Everything read has a derivation -/

/-- The frames spell the tokens, behind which the next operand is due.  A waiting left operand is a
phrase of its own strength, below which stands nothing that its operator would complete. -/
inductive Opened : List Frame → List Token → Prop where
  | nil : Opened [] []
  | group {frames : List Frame} {ts : List Token} (below : Opened frames ts) :
      Opened (.group :: frames) (ts ++ [.opening])
  | call {frames : List Frame} {ts : List Token} (below : Opened frames ts) (function : String) :
      Opened (.call function [] :: frames) (ts ++ [.name function, .opening])
  | argument {frames : List Frame} {ts : List Token} (below : Opened frames ts)
      (function : String) (first : Sum) (rest : ArgumentsTail) :
      Opened (.call function (first.tree :: rest.trees).reverse :: frames)
        (ts ++ .name function :: .opening :: (first.tokens ++ rest.tokens ++ [.comma]))
  | sum {frames : List Frame} {ts : List Token} (below : Opened frames ts)
      (hclosed : Closed 1 frames) (d : Sum) (op : Additive) :
      Opened (.left d.tree op.op :: frames) (ts ++ (d.tokens ++ [.operator op.op]))
  | product {frames : List Frame} {ts : List Token} (below : Opened frames ts)
      (hclosed : Closed 2 frames) (d : Product) (op : Multiplicative) :
      Opened (.left d.tree op.op :: frames) (ts ++ (d.tokens ++ [.operator op.op]))
  | power {frames : List Frame} {ts : List Token} (below : Opened frames ts) (a : Atom) :
      Opened (.left a.tree .pow :: frames) (ts ++ (a.tokens ++ [.operator .pow]))
  | minus {frames : List Frame} {ts : List Token} (below : Opened frames ts) :
      Opened (.minus :: frames) (ts ++ [.operator .sub])
  | plus {frames : List Frame} {ts : List Token} (below : Opened frames ts) :
      Opened (.plus :: frames) (ts ++ [.operator .add])

/-- Completing the frames of signs and powers makes a factor of the operand. -/
theorem Opened.exists_factor {frames : List Frame} {ts : List Token} (h : Opened frames ts)
    (p : Factor) : ∃ frames' ts', ∃ p' : Factor, Opened frames' ts' ∧ Closed 3 frames' ∧
      ts' ++ p'.tokens = ts ++ p.tokens ∧
      ∀ weak < 4, settle weak p.tree frames = settle weak p'.tree frames' := by
  induction h generalizing p with
  | nil => exact ⟨_, _, p, .nil, trivial, rfl, fun _ _ => rfl⟩
  | group below => exact ⟨_, _, p, below.group, trivial, rfl, fun _ _ => rfl⟩
  | call below function => exact ⟨_, _, p, below.call function, trivial, rfl, fun _ _ => rfl⟩
  | argument below function first rest =>
    exact ⟨_, _, p, below.argument function first rest, trivial, rfl, fun _ _ => rfl⟩
  | sum below hclosed d op =>
    exact ⟨_, _, p, below.sum hclosed d op, by simp [Closed], rfl, fun _ _ => rfl⟩
  | product below hclosed d op =>
    exact ⟨_, _, p, below.product hclosed d op, by simp [Closed], rfl, fun _ _ => rfl⟩
  | power below a ih =>
    obtain ⟨frames', ts', p', hopened, hclosed, htokens, hsettle⟩ := ih (.raised a p)
    refine ⟨frames', ts', p', hopened, hclosed, ?_, ?_⟩
    · simp [htokens, Factor.tokens]
    · intro weak hweak
      rw [settle_left_of_lt (by simpa using hweak), ← hsettle weak hweak, Factor.tree]
  | minus below ih =>
    obtain ⟨frames', ts', p', hopened, hclosed, htokens, hsettle⟩ := ih (.signed .minus p)
    refine ⟨frames', ts', p', hopened, hclosed, ?_, ?_⟩
    · simp [htokens, Factor.tokens, Additive.op]
    · intro weak hweak
      rw [settle_minus_of_lt hweak, ← hsettle weak hweak, Factor.tree]
  | plus below ih =>
    obtain ⟨frames', ts', p', hopened, hclosed, htokens, hsettle⟩ := ih (.signed .plus p)
    refine ⟨frames', ts', p', hopened, hclosed, ?_, ?_⟩
    · simp [htokens, Factor.tokens, Additive.op]
    · intro weak hweak
      rw [settle_plus_of_lt hweak, ← hsettle weak hweak, Factor.tree]

/-- Only the frame of a product stands between what a sum and what a product completes. -/
theorem Opened.closed_or_product {frames : List Frame} {ts : List Token} (h : Opened frames ts)
    (hclosed : Closed 3 frames) : Closed 2 frames ∨
      ∃ frames' ts', ∃ d : Product, ∃ op : Multiplicative, frames = .left d.tree op.op :: frames' ∧
        ts = ts' ++ (d.tokens ++ [.operator op.op]) ∧ Opened frames' ts' ∧ Closed 2 frames' := by
  cases h with
  | product below hbelow d op => exact .inr ⟨_, _, d, op, rfl, rfl, below, hbelow⟩
  | _ => simp [Closed] at hclosed ⊢

/-- Only the frame of a sum stands between what a product and what the end of a phrase
completes. -/
theorem Opened.closed_or_sum {frames : List Frame} {ts : List Token} (h : Opened frames ts)
    (hclosed : Closed 2 frames) : Closed 0 frames ∨
      ∃ frames' ts', ∃ d : Sum, ∃ op : Additive, frames = .left d.tree op.op :: frames' ∧
        ts = ts' ++ (d.tokens ++ [.operator op.op]) ∧ Opened frames' ts' ∧ Closed 1 frames' := by
  cases h with
  | sum below hbelow d op => exact .inr ⟨_, _, d, op, rfl, rfl, below, hbelow⟩
  | _ => simp [Closed] at hclosed ⊢

/-- Completing the frame of a product as well makes a product of the operand. -/
theorem Opened.exists_product {frames : List Frame} {ts : List Token} (h : Opened frames ts)
    (p : Factor) : ∃ frames' ts', ∃ d : Product, Opened frames' ts' ∧ Closed 2 frames' ∧
      ts' ++ d.tokens = ts ++ p.tokens ∧
      ∀ weak < 3, settle weak p.tree frames = settle weak d.tree frames' := by
  obtain ⟨frames', ts', p', hopened, hclosed, htokens, hsettle⟩ := h.exists_factor p
  rcases hopened.closed_or_product hclosed with htwo | ⟨below, us, d, op, rfl, rfl, hbelow, htwo⟩
  · refine ⟨frames', ts', p'.toProduct, hopened, htwo, by simpa using htokens, ?_⟩
    intro weak hweak
    rw [hsettle weak (by omega), Factor.tree_toProduct]
  · refine ⟨below, us, d.snoc op p', hbelow, htwo, ?_, ?_⟩
    · simp [← htokens, Product.tokens_snoc]
    · intro weak hweak
      rw [hsettle weak (by omega), settle_left_of_lt (by simpa using hweak), Product.tree_snoc]

/-- Completing the frame of a sum as well makes a sum of the operand. -/
theorem Opened.exists_sum {frames : List Frame} {ts : List Token} (h : Opened frames ts)
    (p : Factor) : ∃ frames' ts', ∃ d : Sum, Opened frames' ts' ∧ Closed 1 frames' ∧
      ts' ++ d.tokens = ts ++ p.tokens ∧
      ∀ weak < 2, settle weak p.tree frames = settle weak d.tree frames' := by
  obtain ⟨frames', ts', d, hopened, hclosed, htokens, hsettle⟩ := h.exists_product p
  rcases hopened.closed_or_sum hclosed with hzero | ⟨below, us, d', op, rfl, rfl, hbelow, hone⟩
  · refine ⟨frames', ts', d.toSum, hopened, hzero.mono (by omega), by simpa using htokens, ?_⟩
    intro weak hweak
    rw [hsettle weak (by omega), Product.tree_toSum]
  · refine ⟨below, us, d'.snoc op d, hbelow, hone, ?_, ?_⟩
    · simp [← htokens, Sum.tokens_snoc]
    · intro weak hweak
      rw [hsettle weak (by omega), settle_left_of_lt (by simpa using hweak), Sum.tree_snoc]

/-- A sum leaves nothing for the end of a phrase to complete. -/
theorem Opened.closed_zero {frames : List Frame} {ts : List Token} (h : Opened frames ts)
    (hclosed : Closed 1 frames) : Closed 0 frames := by
  rcases h.closed_or_sum (hclosed.mono (by omega)) with hzero | ⟨_, _, _, op, rfl, _⟩
  · exact hzero
  · simp [Closed] at hclosed

/-- At the end of a phrase everything down to the innermost parenthesis makes one sum. -/
theorem Opened.settle_zero {frames : List Frame} {ts : List Token} (h : Opened frames ts)
    (p : Factor) : ∃ frames' ts', ∃ d : Sum, Opened frames' ts' ∧ Closed 0 frames' ∧
      ts' ++ d.tokens = ts ++ p.tokens ∧ settle 0 p.tree frames = (d.tree, frames') := by
  obtain ⟨frames', ts', d, hopened, hclosed, htokens, hsettle⟩ := h.exists_sum p
  have hzero := hopened.closed_zero hclosed
  refine ⟨frames', ts', d, hopened, hzero, htokens, ?_⟩
  rw [hsettle 0 (by omega), settle_of_closed hzero]

/-- The frames spell the tokens that have been read, up to an operand that has just been read. -/
def Spells (s : Parsing) (ts : List Token) : Prop :=
  match s.phase with
  | .due => Opened s.frames ts
  | .named name => ∃ us, Opened s.frames us ∧ ts = us ++ [.name name]
  | .value e => ∃ us, ∃ a : Atom, Opened s.frames us ∧ ts = us ++ a.tokens ∧ e = a.tree

/-- Behind an operand the tokens end with an atom, and the operand is its tree. -/
theorem Spells.exists_atom {s : Parsing} {ts : List Token} {e : Expr} (h : Spells s ts)
    (hoperand : s.operand? = some e) :
    ∃ us, ∃ a : Atom, Opened s.frames us ∧ ts = us ++ a.tokens ∧ e = a.tree := by
  obtain ⟨phase, frames⟩ := s
  cases phase with
  | due => simp [operand?] at hoperand
  | named name =>
    obtain rfl : sym name = e := by simpa [operand?] using hoperand
    obtain ⟨us, hopened, rfl⟩ := h
    exact ⟨us, .name name, hopened, rfl, rfl⟩
  | value e' =>
    obtain rfl : e' = e := by simpa [operand?] using hoperand
    exact h

/-- A waiting operator keeps what it has completed as its left operand. -/
theorem Opened.operator {frames : List Frame} {ts : List Token} (h : Opened frames ts) (a : Atom)
    (op : BinaryOp) :
    Opened (.left (settle op.strength a.tree frames).1 op :: (settle op.strength a.tree frames).2)
      (ts ++ a.tokens ++ [.operator op]) := by
  have hadditive : ∀ op : Additive, Opened (.left (settle 1 a.tree frames).1 op.op ::
      (settle 1 a.tree frames).2) (ts ++ a.tokens ++ [.operator op.op]) := by
    intro op
    obtain ⟨frames', ts', d, hopened, hclosed, htokens, hsettle⟩ := h.exists_sum (.base a)
    have heq : settle 1 a.tree frames = (d.tree, frames') := by
      rw [← settle_of_closed hclosed, ← hsettle 1 (by omega), Factor.tree]
    rw [heq, show ts ++ a.tokens = ts' ++ d.tokens from htokens.symm, List.append_assoc]
    exact hopened.sum hclosed d op
  have hmultiplicative : ∀ op : Multiplicative, Opened (.left (settle 2 a.tree frames).1 op.op ::
      (settle 2 a.tree frames).2) (ts ++ a.tokens ++ [.operator op.op]) := by
    intro op
    obtain ⟨frames', ts', d, hopened, hclosed, htokens, hsettle⟩ := h.exists_product (.base a)
    have heq : settle 2 a.tree frames = (d.tree, frames') := by
      rw [← settle_of_closed hclosed, ← hsettle 2 (by omega), Factor.tree]
    rw [heq, show ts ++ a.tokens = ts' ++ d.tokens from htokens.symm, List.append_assoc]
    exact hopened.product hclosed d op
  cases op with
  | add => exact hadditive .plus
  | sub => exact hadditive .minus
  | mul => exact hmultiplicative .times
  | div => exact hmultiplicative .per
  | pow =>
    rw [strength_pow, settle_of_closed (closed_four frames), List.append_assoc]
    exact h.power a

/-- A token behind an operand keeps the frames in step with the tokens. -/
theorem Opened.afterValue {frames : List Frame} {ts : List Token} {t : Token} {s : Parsing}
    (h : Opened frames ts) (a : Atom) (hstep : afterValue a.tree frames t = .ok s) :
    Spells s (ts ++ a.tokens ++ [t]) := by
  obtain ⟨frames', us, d, hopened, -, htokens, hsettle⟩ := h.settle_zero (.base a)
  simp only [Factor.tree, Factor.tokens] at htokens hsettle
  cases t with
  | operator op =>
    simp only [Parsing.afterValue, Except.ok.injEq] at hstep
    subst hstep
    exact h.operator a op
  | closing =>
    simp only [Parsing.afterValue, hsettle] at hstep
    rw [← htokens]
    cases hopened with
    | group below =>
      obtain rfl := by simpa using hstep
      exact ⟨_, .group d, below, by simp [Atom.tokens], rfl⟩
    | call below function =>
      obtain rfl := by simpa using hstep
      exact ⟨_, .call function (.some d .nil), below,
        by simp [Atom.tokens, Arguments.tokens, ArgumentsTail.tokens], rfl⟩
    | argument below function first rest =>
      obtain rfl := by simpa using hstep
      refine ⟨_, .call function (.some first (rest.snoc d)), below, ?_, ?_⟩
      · simp [Atom.tokens, Arguments.tokens, ArgumentsTail.tokens_snoc]
      · simp [Atom.tree, Arguments.trees, ArgumentsTail.trees_snoc]
    | _ => simp at hstep
  | comma =>
    simp only [Parsing.afterValue, hsettle] at hstep
    rw [← htokens]
    cases hopened with
    | call below function =>
      obtain rfl := by simpa using hstep
      simpa [Spells, ArgumentsTail.trees, ArgumentsTail.tokens] using
        below.argument function d .nil
    | argument below function first rest =>
      obtain rfl := by simpa using hstep
      simpa [Spells, ArgumentsTail.trees_snoc, ArgumentsTail.tokens_snoc] using
        below.argument function first (rest.snoc d)
    | _ => simp at hstep
  | number value => simp [Parsing.afterValue] at hstep
  | name name => simp [Parsing.afterValue] at hstep
  | opening => simp [Parsing.afterValue] at hstep

/-- A token where an operand is due keeps the frames in step with the tokens. -/
theorem Opened.whenDue {frames : List Frame} {ts : List Token} {t : Token} {s : Parsing}
    (h : Opened frames ts) (hstep : whenDue frames t = .ok s) : Spells s (ts ++ [t]) := by
  cases t with
  | number value =>
    obtain rfl := by simpa [Parsing.whenDue] using hstep
    exact ⟨ts, .number value, h, rfl, rfl⟩
  | name name =>
    obtain rfl := by simpa [Parsing.whenDue] using hstep
    exact ⟨ts, h, rfl⟩
  | opening =>
    obtain rfl := by simpa [Parsing.whenDue] using hstep
    exact h.group
  | operator op =>
    cases op with
    | add =>
      obtain rfl := by simpa [Parsing.whenDue] using hstep
      exact h.plus
    | sub =>
      obtain rfl := by simpa [Parsing.whenDue] using hstep
      exact h.minus
    | _ => simp [Parsing.whenDue] at hstep
  | closing =>
    cases h with
    | call below function =>
      obtain rfl := by simpa [Parsing.whenDue] using hstep
      exact ⟨_, .call function .none, below, by simp [Atom.tokens, Arguments.tokens], rfl⟩
    | _ => simp [Parsing.whenDue] at hstep
  | comma => simp [Parsing.whenDue] at hstep

/-- Every token that is taken keeps the frames in step with the tokens. -/
theorem Spells.step {s s' : Parsing} {ts : List Token} {t : Token} (h : Spells s ts)
    (hstep : s.step t = .ok s') : Spells s' (ts ++ [t]) := by
  obtain ⟨phase, frames⟩ := s
  cases phase with
  | due => exact Opened.whenDue h hstep
  | named name =>
    obtain ⟨us, hopened, rfl⟩ := h
    by_cases ht : t = .opening
    · subst ht
      obtain rfl := by simpa [Parsing.step] using hstep
      simpa [Spells] using hopened.call name
    · rw [step_of_operand (e := sym name) rfl ht] at hstep
      exact hopened.afterValue (.name name) hstep
  | value e =>
    obtain ⟨us, a, hopened, rfl, rfl⟩ := h
    exact hopened.afterValue a hstep

/-- All tokens that are taken keep the frames in step with the tokens. -/
theorem Spells.after {s s' : Parsing} {us ts : List Token} (h : Spells s us)
    (hafter : s.after ts = some s') : Spells s' (us ++ ts) := by
  induction ts generalizing s us with
  | nil =>
    obtain rfl : s = s' := by simpa using hafter
    simpa using h
  | cons t ts ih =>
    cases hstep : s.step t with
    | error refusal => simp [Parsing.after, hstep, Except.toOption] at hafter
    | ok s₁ =>
      rw [after_cons_of_step hstep] at hafter
      simpa using ih (h.step hstep) hafter

/-- A text that has been read to its end is one sum. -/
theorem Spells.finish {s : Parsing} {ts : List Token} {e : Expr} (h : Spells s ts)
    (hfinish : s.finish = .ok e) : ∃ d : Sum, d.tokens = ts ∧ d.tree = e := by
  cases hoperand : s.operand? with
  | none =>
    obtain ⟨phase, frames⟩ := s
    cases phase <;> simp [operand?, Parsing.finish] at hoperand hfinish
  | some operand =>
    obtain ⟨us, a, hopened, rfl, rfl⟩ := h.exists_atom hoperand
    obtain ⟨frames', ts', d, hopened', -, htokens, hsettle⟩ := hopened.settle_zero (.base a)
    simp only [Factor.tree, Factor.tokens] at htokens hsettle
    rw [finish_of_operand hoperand, complete, hsettle] at hfinish
    refine ⟨d, ?_, ?_⟩
    · cases hopened' with
      | nil => simpa using htokens
      | _ => simp at hfinish
    · cases hopened' with
      | nil => simpa using hfinish
      | _ => simp at hfinish

/-- A row of tokens is read as an expression exactly if it has a derivation with this tree. -/
theorem run_start_eq_ok_iff (length : Nat) (placed : List Placed) (e : Expr) :
    run length start placed = .ok e ↔
      ∃ d : Sum, d.tokens = placed.map Placed.token ∧ d.tree = e := by
  rw [run_eq_ok_iff]
  constructor
  · rintro ⟨s, hafter, hfinish⟩
    have hspells : Spells start [] := Opened.nil
    exact (by simpa using hspells.after hafter : Spells s _).finish hfinish
  · rintro ⟨d, htokens, rfl⟩
    obtain ⟨s, hafter, operand, hoperand, hsettle⟩ := reads_sum d [] trivial
    refine ⟨s, by rw [← htokens]; exact hafter, ?_⟩
    have hclosed : Closed 0 [] := trivial
    rw [finish_of_operand hoperand, complete, hsettle 0 (by omega), settle_of_closed hclosed]

end Parsing

open Grammar

/-- A text is parsed exactly if it is scanned to tokens that have a derivation, and the expression
is the tree of the derivation. -/
theorem parse_eq_ok_iff_exists_scan (text : String) (e : Expr) :
    parse text = .ok e ↔ ∃ placed, Token.scan text.toList = .ok placed ∧
      ∃ d : Sum, d.tokens = placed.map Placed.token ∧ d.tree = e := by
  simp only [parse, parseChars]
  cases Token.scan text.toList with
  | error failure => simp
  | ok placed => simp [Parsing.run_start_eq_ok_iff]

end FlatNet.Expr
