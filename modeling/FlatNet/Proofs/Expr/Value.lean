import FlatNet.Proofs.Expr.Printer
import FlatNet.Proofs.Expr.Substitution
import Mathlib.Analysis.SpecialFunctions.Pow.Real

/-!
# Values of expressions

An expression has a real value under an assignment of numbers to its symbols and of functions to the
names that it calls, unless a literal is not finite, a number is divided by zero, or a power is not
defined.  What is read from a written expression has the same value as the expression if all
literals are finite and no power has a literal behind a minus sign as its base.
-/

set_option autoImplicit false

namespace FlatNet

noncomputable section

/-- The real number that a finite number stands for. -/
def Binary64.toReal (x : Binary64) : ℝ :=
  (if x.isNegative then -1 else 1) * (x.significand * (2 : ℝ) ^ x.exponent)

/-- What an operator gives for two numbers. -/
def BinaryOp.apply (op : BinaryOp) (a b : ℝ) : Option ℝ :=
  open Classical in
  match op with
  | add => some (a + b)
  | sub => some (a - b)
  | mul => some (a * b)
  | div => if b = 0 then none else some (a / b)
  | pow =>
    if (a = 0 ∧ b < 0) ∨ (a < 0 ∧ ¬∃ n : ℤ, b = n) then none else some (a ^ b)

namespace Expr

section Value

variable (symbols : String → ℝ) (functions : String → List ℝ → ℝ)

mutual

/-- The value of an expression, if it has one. -/
def value : Expr → Option ℝ
  | num x => if x.isFinite then some x.toReal else none
  | sym name => some (symbols name)
  | neg operand => (value operand).map (-·)
  | binary op lhs rhs => do op.apply (← value lhs) (← value rhs)
  | call name args => (values args).map (functions name)

/-- The values of a list of expressions, if all of them have one. -/
def values : List Expr → Option (List ℝ)
  | [] => some []
  | arg :: args => do some ((← value arg) :: (← values args))

end

end Value

end Expr

end

namespace Binary64

variable {x : Binary64}

/-- Negation turns the sign of the real number. -/
theorem toReal_neg (x : Binary64) : x.neg.toReal = -x.toReal := by
  have hmagnitude := magnitude_neg x
  unfold toReal
  rw [isNegative_neg, significand_congr hmagnitude, exponent_congr hmagnitude]
  cases x.isNegative <;> simp

/-- Zero stands for zero, whatever its sign is. -/
theorem toReal_of_isZero (h : x.isZero = true) : x.toReal = 0 := by
  simp [toReal, significand_of_isZero h]

/-- What is finite is a number. -/
theorem isNaN_of_isFinite (h : x.isFinite = true) : x.isNaN = false := by
  simp only [isFinite, decide_eq_true_eq] at h
  simp only [isNaN, decide_eq_false_iff_not]
  omega

/-- Behind its minus sign a finite number is written without its sign. -/
theorem toReal_abs (h : x.isFinite = true) :
    x.abs.toReal = if x.showsMinus then -x.toReal else x.toReal := by
  have hnan := isNaN_of_isFinite h
  cases hzero : x.isZero with
  | true =>
    rw [toReal_of_isZero hzero, toReal_of_isZero (isZero_congr (magnitude_abs x) ▸ hzero)]
    simp
  | false =>
    cases hnegative : x.isNegative with
    | true =>
      have hneg := toReal_neg x.abs
      rw [neg_abs_of_isNegative hnegative] at hneg
      simp [showsMinus, hnan, hzero, hnegative, hneg]
    | false => simp [showsMinus, hnegative, abs_of_not_isNegative hnegative]

end Binary64

namespace Expr

/-- The expressions have the same value under every assignment. -/
def SameMeaning (e e' : Expr) : Prop :=
  ∀ (symbols : String → ℝ) (functions : String → List ℝ → ℝ),
    e.value symbols functions = e'.value symbols functions

mutual

/-- A power in the expression has a literal behind a minus sign as its base. -/
def raisesMinus : Expr → Bool
  | num _ => false
  | sym _ => false
  | neg operand => raisesMinus operand
  | binary op lhs rhs =>
    (decide (op = .pow) && lhs.beginsWithMinus) || raisesMinus lhs || raisesMinus rhs
  | call _ args => anyRaisesMinus args

/-- A power in one of the expressions has a literal behind a minus sign as its base. -/
def anyRaisesMinus : List Expr → Bool
  | [] => false
  | arg :: args => raisesMinus arg || anyRaisesMinus args

end

section Reread

variable {symbols : String → ℝ} {functions : String → List ℝ → ℝ}

/-- A negation has the negative value. -/
theorem value_negated (e : Expr) :
    (negated e).value symbols functions = (e.value symbols functions).map (-·) := by
  cases e with
  | num x =>
    have hfinite := Binary64.isFinite_congr (Binary64.magnitude_neg x)
    simp only [negated, value, hfinite, Binary64.toReal_neg]
    split <;> rfl
  | _ => rfl

/-- A literal that is read behind its sign has the value of the literal. -/
theorem value_signed_magnitude {x : Binary64} (h : x.isFinite = true) :
    (signed x.showsMinus (magnitude x)).value symbols functions =
      (num x).value symbols functions := by
  have hfinite := Binary64.isFinite_congr (Binary64.magnitude_abs x)
  unfold signed magnitude
  rw [Binary64.isNaN_of_isFinite h, h]
  cases hminus : x.showsMinus with
  | true =>
    simp [value_negated, value, hfinite, h, Binary64.toReal_abs h, hminus]
  | false => simp [value, hfinite, h, Binary64.toReal_abs h, hminus]

mutual

/-- What is read has the same value, if the literals are finite and no power has a literal behind a
minus sign as its base. -/
theorem value_reread : (e : Expr) → (∀ x ∈ e.literals, x.isFinite = true) →
    e.raisesMinus = false → e.reread.value symbols functions = e.value symbols functions
  | num x, hfinite, _ => by
    rw [reread]
    exact value_signed_magnitude (hfinite x (by simp [literals]))
  | sym name, _, _ => by rw [reread]
  | neg operand, hfinite, hraises => by
    rw [literals] at hfinite
    rw [raisesMinus] at hraises
    rw [reread, value_negated, value_reread operand hfinite hraises, value]
  | binary op lhs rhs, hfinite, hraises => by
    rw [literals, List.forall_mem_append] at hfinite
    rw [raisesMinus, Bool.or_eq_false_iff, Bool.or_eq_false_iff] at hraises
    obtain ⟨⟨hbase, hlhs⟩, hrhs⟩ := hraises
    have hjoined : joined op lhs lhs.reread rhs.reread = binary op lhs.reread rhs.reread := by
      by_cases hop : op = .pow
      · exact joined_of_not_beginsWithMinus (by simpa [hop] using hbase) op _
      · exact joined_of_ne_pow hop _ _ _
    rw [reread, hjoined, value, value, value_reread lhs hfinite.1 hlhs,
      value_reread rhs hfinite.2 hrhs]
  | call name args, hfinite, hraises => by
    rw [literals] at hfinite
    rw [raisesMinus] at hraises
    rw [reread, value, value, values_rereadAll args hfinite hraises]

/-- Arguments that are read again have the same values, if their literals are finite and no power
has a literal behind a minus sign as its base. -/
theorem values_rereadAll : (args : List Expr) →
    (∀ x ∈ literalsOfAll args, x.isFinite = true) → anyRaisesMinus args = false →
    values symbols functions (rereadAll args) = values symbols functions args
  | [], _, _ => by rw [rereadAll]
  | arg :: args, hfinite, hraises => by
    rw [literalsOfAll, List.forall_mem_append] at hfinite
    rw [anyRaisesMinus, Bool.or_eq_false_iff] at hraises
    rw [rereadAll, values, values, value_reread arg hfinite.1 hraises.1,
      values_rereadAll args hfinite.2 hraises.2]

end

end Reread

/-- What is read means the same, if the literals are finite and no power has a literal behind a
minus sign as its base. -/
theorem sameMeaning_reread {e : Expr} (hfinite : ∀ x ∈ e.literals, x.isFinite = true)
    (hraises : e.raisesMinus = false) : SameMeaning e.reread e :=
  fun _ _ => value_reread e hfinite hraises

/-! ### Substitution -/

/-- Numbers, operators and calls over the reals, where a value may be missing. -/
noncomputable def reals (functions : String → List ℝ → ℝ) : Interpretation (Option ℝ) where
  number x := if x.isFinite then some x.toReal else none
  negate a := a.map (-·)
  operate op a b := do op.apply (← a) (← b)
  apply name args := (args.mapM id).map (functions name)

section Reals

variable {symbols symbols' : String → ℝ} {functions : String → List ℝ → ℝ}

mutual

/-- Evaluation over the real numbers gives the value of an expression. -/
theorem eval_reals : (e : Expr) →
    e.eval (reals functions) (fun name => some (symbols name)) = e.value symbols functions
  | num _ => by rw [eval, value, reals]
  | sym _ => by rw [eval, value]
  | neg operand => by rw [eval, value, eval_reals operand, reals]
  | binary _ lhs rhs => by rw [eval, value, eval_reals lhs, eval_reals rhs, reals]
  | call _ args => by rw [eval, value, ← mapM_evalAll_reals args, reals]

/-- Evaluation over the real numbers gives the values of arguments. -/
theorem mapM_evalAll_reals : (es : List Expr) →
    (evalAll (reals functions) (fun name => some (symbols name)) es).mapM id =
      values symbols functions es
  | [] => by rw [evalAll, values, List.mapM_nil]; rfl
  | e :: es => by
    rw [evalAll, values, List.mapM_cons, eval_reals e, mapM_evalAll_reals es]
    rfl

end

/-- Where all that is put in has a value, substitution assigns these values to the symbols. -/
theorem value_subst {e : Expr} {bindings : NameMap Expr}
    (h : ∀ q ∈ e.occurrences,
      ((bindings[q]?).getD (sym q)).value symbols functions = some (symbols' q)) :
    (e.subst bindings).value symbols functions = e.value symbols' functions := by
  rw [← eval_reals, ← eval_reals, eval_subst]
  refine eval_congr _ e fun q hq => ?_
  rw [← eval_getD, eval_reals, h q hq]

end Reals

end Expr

end FlatNet
