import FlatNet.Expr.Basic

/-!
# Substitution

Symbols are replaced by expressions all at once: nothing is looked for in the expressions that are
put in.  An expression is never evaluated, so what it means is left open: an `Interpretation` says
what is made of numbers, operators and calls.  Under every interpretation, substitution is the same
as giving the bound symbols the values of their expressions, and two substitutions in a row are a
single one.
-/

set_option autoImplicit false

universe u

namespace FlatNet

namespace Expr

/-! ### What is put in -/

mutual

/-- The symbols after a substitution are those of the expressions put in. -/
theorem mem_occurrences_subst (bindings : NameMap Expr) (x : String) :
    (e : Expr) → (x ∈ (e.subst bindings).occurrences ↔
      ∃ q ∈ e.occurrences, x ∈ ((bindings[q]?).getD (sym q)).occurrences)
  | num _ => by simp [subst, occurrences]
  | sym name => by simp [subst, occurrences]
  | neg operand => by
    rw [subst, occurrences, occurrences]
    exact mem_occurrences_subst bindings x operand
  | binary _ lhs rhs => by
    rw [subst, occurrences, occurrences, List.mem_append, mem_occurrences_subst bindings x lhs,
      mem_occurrences_subst bindings x rhs]
    simp only [List.mem_append, or_and_right, exists_or]
  | call _ args => by
    rw [subst, occurrences, occurrences]
    exact mem_occurrencesOfAll_substAll bindings x args

/-- The symbols in substituted arguments are those of what their own symbols are replaced by. -/
theorem mem_occurrencesOfAll_substAll (bindings : NameMap Expr) (x : String) :
    (es : List Expr) → (x ∈ occurrencesOfAll (substAll bindings es) ↔
      ∃ q ∈ occurrencesOfAll es, x ∈ ((bindings[q]?).getD (sym q)).occurrences)
  | [] => by simp [substAll, occurrencesOfAll]
  | e :: es => by
    rw [substAll, occurrencesOfAll, occurrencesOfAll, List.mem_append,
      mem_occurrences_subst bindings x e, mem_occurrencesOfAll_substAll bindings x es]
    simp only [List.mem_append, or_and_right, exists_or]

end

mutual

/-- A substitution is determined by what it puts in for the symbols of the expression. -/
theorem subst_congr {bindings bindings' : NameMap Expr} :
    (e : Expr) → (∀ q ∈ e.occurrences, bindings[q]? = bindings'[q]?) →
      e.subst bindings = e.subst bindings'
  | num _, _ => rfl
  | sym name, h => by rw [subst, subst, h name (List.mem_singleton_self name)]
  | neg operand, h => by rw [subst, subst, subst_congr operand h]
  | binary _ lhs rhs, h => by
    rw [subst, subst, subst_congr lhs fun q hq => h q (List.mem_append_left _ hq),
      subst_congr rhs fun q hq => h q (List.mem_append_right _ hq)]
  | call _ args, h => by rw [subst, subst, substAll_congr args h]

/-- A substitution into arguments depends on what it does to their symbols. -/
theorem substAll_congr {bindings bindings' : NameMap Expr} :
    (es : List Expr) → (∀ q ∈ occurrencesOfAll es, bindings[q]? = bindings'[q]?) →
      substAll bindings es = substAll bindings' es
  | [], _ => rfl
  | e :: es, h => by
    rw [substAll, substAll, subst_congr e fun q hq => h q (List.mem_append_left _ hq),
      substAll_congr es fun q hq => h q (List.mem_append_right _ hq)]

end

/-- A symbol is left over from the expression, where it was not bound, or it comes with an
expression that a symbol is bound to. -/
theorem mem_symbols_subst (e : Expr) (bindings : NameMap Expr) (name : String) :
    name ∈ (e.subst bindings).symbols ↔
      (name ∈ e.symbols ∧ bindings[name]? = none) ∨
        ∃ q ∈ e.symbols, ∃ value, bindings[q]? = some value ∧ name ∈ value.symbols := by
  simp only [mem_symbols, mem_occurrences_subst]
  constructor
  · rintro ⟨q, hq, hname⟩
    cases hbound : bindings[q]? with
    | none =>
      rw [hbound, Option.getD_none, occurrences, List.mem_singleton] at hname
      subst hname
      exact .inl ⟨hq, hbound⟩
    | some value =>
      rw [hbound, Option.getD_some] at hname
      exact .inr ⟨q, hq, value, hbound, hname⟩
  · rintro (⟨hname, hfree⟩ | ⟨q, hq, value, hbound, hname⟩)
    · refine ⟨name, hname, ?_⟩
      simp [hfree, occurrences]
    · refine ⟨q, hq, ?_⟩
      rwa [hbound, Option.getD_some]

/-! ### Values -/

/-- What numbers, operators and calls mean, over any values; one of these may stand for the lack of
a value. -/
structure Interpretation (V : Type u) where
  number : Binary64 → V
  negate : V → V
  operate : BinaryOp → V → V → V
  apply : String → List V → V

section Eval

variable {V : Type u} (meaning : Interpretation V)

mutual

/-- The value of an expression under an assignment of values to the symbols. -/
def eval (assignment : String → V) : Expr → V
  | num value => meaning.number value
  | sym name => assignment name
  | neg operand => meaning.negate (eval assignment operand)
  | binary op lhs rhs => meaning.operate op (eval assignment lhs) (eval assignment rhs)
  | call name args => meaning.apply name (evalAll assignment args)

/-- The values of a list of expressions. -/
def evalAll (assignment : String → V) : List Expr → List V
  | [] => []
  | arg :: args => eval assignment arg :: evalAll assignment args

end

mutual

/-- A value depends on the values of the symbols that occur. -/
theorem eval_congr {assignment assignment' : String → V} :
    (e : Expr) → (∀ q ∈ e.occurrences, assignment q = assignment' q) →
      e.eval meaning assignment = e.eval meaning assignment'
  | num _, _ => by simp only [eval]
  | sym name, h => by rw [eval, eval, h name (List.mem_singleton_self name)]
  | neg operand, h => by rw [eval, eval, eval_congr operand h]
  | binary _ lhs rhs, h => by
    rw [eval, eval, eval_congr lhs fun q hq => h q (List.mem_append_left _ hq),
      eval_congr rhs fun q hq => h q (List.mem_append_right _ hq)]
  | call _ args, h => by rw [eval, eval, evalAll_congr args h]

/-- The values of arguments depend on the values of their symbols. -/
theorem evalAll_congr {assignment assignment' : String → V} :
    (es : List Expr) → (∀ q ∈ occurrencesOfAll es, assignment q = assignment' q) →
      evalAll meaning assignment es = evalAll meaning assignment' es
  | [], _ => by simp only [evalAll]
  | e :: es, h => by
    rw [evalAll, evalAll, eval_congr e fun q hq => h q (List.mem_append_left _ hq),
      evalAll_congr es fun q hq => h q (List.mem_append_right _ hq)]

end

/-- Every bound symbol has the value of its expression; the other symbols are as they were. -/
def bound (bindings : NameMap Expr) (assignment : String → V) (name : String) : V :=
  match bindings[name]? with
  | some value => value.eval meaning assignment
  | none => assignment name

variable (bindings : NameMap Expr) (assignment : String → V)

/-- A symbol has the value of what is put in for it. -/
theorem eval_getD (name : String) :
    ((bindings[name]?).getD (sym name)).eval meaning assignment =
      bound meaning bindings assignment name := by
  unfold bound
  cases bindings[name]? <;> simp [eval]

mutual

/-- Substitution gives the bound symbols the values of their expressions. -/
theorem eval_subst : (e : Expr) → (e.subst bindings).eval meaning assignment =
    e.eval meaning (bound meaning bindings assignment)
  | num _ => by simp only [subst, eval]
  | sym name => by rw [subst, eval_getD, eval]
  | neg operand => by rw [subst, eval, eval, eval_subst operand]
  | binary _ lhs rhs => by rw [subst, eval, eval, eval_subst lhs, eval_subst rhs]
  | call _ args => by rw [subst, eval, eval, evalAll_substAll args]

/-- Substituted arguments have the values that the arguments have with the values of what is
substituted. -/
theorem evalAll_substAll : (es : List Expr) → evalAll meaning assignment (substAll bindings es) =
    evalAll meaning (bound meaning bindings assignment) es
  | [] => by simp only [substAll, evalAll]
  | e :: es => by rw [substAll, evalAll, evalAll, eval_subst e, evalAll_substAll es]

end

end Eval

/-! ### Two substitutions in a row -/

/-- The substitution of `first` and then of `second`: every symbol of `first` is bound to its
expression with `second` substituted in it, every other one as `second` has it. -/
def composed (first second : NameMap Expr) : NameMap Expr :=
  second ∪ first.map fun _ value => value.subst second

section Composed

variable (first second : NameMap Expr)

/-- What a symbol is bound to by two substitutions, one after the other. -/
theorem getElem?_composed (name : String) :
    (composed first second)[name]? =
      ((first[name]?).map fun value => value.subst second).or second[name]? := by
  unfold composed
  rw [Std.ExtTreeMap.getElem?_union, Std.ExtTreeMap.getElem?_map]

/-- What is put in for a symbol, and then substituted in, is put in at once. -/
theorem subst_getD (name : String) :
    ((first[name]?).getD (sym name)).subst second =
      ((composed first second)[name]?).getD (sym name) := by
  rw [getElem?_composed]
  cases first[name]? <;> simp [subst]

mutual

/-- Two substitutions one after the other are the composed one. -/
theorem subst_subst : (e : Expr) → (e.subst first).subst second = e.subst (composed first second)
  | num _ => by simp only [subst]
  | sym name => by rw [subst, subst, subst_getD]
  | neg operand => by rw [subst, subst, subst, subst_subst operand]
  | binary _ lhs rhs => by rw [subst, subst, subst, subst_subst lhs, subst_subst rhs]
  | call _ args => by rw [subst, subst, subst, substAll_substAll args]

/-- Two substitutions into arguments one after the other are the composed one. -/
theorem substAll_substAll : (es : List Expr) →
    substAll second (substAll first es) = substAll (composed first second) es
  | [] => by simp only [substAll]
  | e :: es => by rw [substAll, substAll, substAll, subst_subst e, substAll_substAll es]

end

end Composed

/-- Substitution is simultaneous: it changes the assignment and nothing else, its symbols are those
left over and those put in, and substitutions in a row are one. -/
theorem subst_simultaneous (e : Expr) (first second : NameMap Expr) :
    (∀ (V : Type u) (meaning : Interpretation V) (assignment : String → V),
      (e.subst first).eval meaning assignment =
        e.eval meaning (bound meaning first assignment)) ∧
    (∀ name, name ∈ (e.subst first).symbols ↔
      (name ∈ e.symbols ∧ first[name]? = none) ∨
        ∃ q ∈ e.symbols, ∃ value, first[q]? = some value ∧ name ∈ value.symbols) ∧
    (∀ name : String, (composed first second)[name]? =
      ((first[name]?).map fun value => value.subst second).or second[name]?) ∧
    (e.subst first).subst second = e.subst (composed first second) := by
  refine ⟨?_, ?_, ?_, ?_⟩
  · intro V meaning assignment
    exact eval_subst meaning first assignment e
  · exact mem_symbols_subst e first
  · exact getElem?_composed first second
  · exact subst_subst first second e

end Expr

end FlatNet
