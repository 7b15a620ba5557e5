import FlatNet.Names
import FlatNet.Number.Binary64

/-!
# Parameter expressions

The value of a parameter is an expression that is never evaluated: it is asked for the symbols
that occur in it, and symbols are replaced by other expressions.  The name of a called function is
not a symbol.
-/

set_option autoImplicit false

namespace FlatNet

/-- The binary operators. -/
inductive BinaryOp where
  | add
  | sub
  | mul
  | div
  | pow
  deriving DecidableEq

/-- An expression over numbers, symbols and function calls. -/
inductive Expr where
  | num (value : Binary64)
  | sym (name : String)
  | neg (operand : Expr)
  | binary (op : BinaryOp) (lhs rhs : Expr)
  | call (name : String) (args : List Expr)
  deriving Inhabited

namespace Expr

mutual

/-- The symbols of an expression, one entry for each occurrence, from left to right. -/
def occurrences : Expr → List String
  | num _ => []
  | sym name => [name]
  | neg operand => occurrences operand
  | binary _ lhs rhs => occurrences lhs ++ occurrences rhs
  | call _ args => occurrencesOfAll args

/-- The symbols of a list of expressions. -/
def occurrencesOfAll : List Expr → List String
  | [] => []
  | arg :: args => occurrences arg ++ occurrencesOfAll args

end

/-- The set of the symbols of an expression. -/
def symbols (e : Expr) : NameSet := NameSet.ofList e.occurrences

/-- The name occurs as a symbol. -/
def mentions (e : Expr) (name : String) : Bool := e.occurrences.contains name

mutual

/-- Every symbol that is bound is replaced by its expression, all of them at once. -/
def subst (bindings : NameMap Expr) : Expr → Expr
  | num value => num value
  | sym name => (bindings[name]?).getD (sym name)
  | neg operand => neg (subst bindings operand)
  | binary op lhs rhs => binary op (subst bindings lhs) (subst bindings rhs)
  | call name args => call name (substAll bindings args)

/-- Substitution in every expression of a list. -/
def substAll (bindings : NameMap Expr) : List Expr → List Expr
  | [] => []
  | arg :: args => subst bindings arg :: substAll bindings args

end

/-- The number that an expression is, if it is a literal behind any number of minus signs. -/
def number? : Expr → Option Binary64
  | num value => some value
  | neg operand => (number? operand).map Binary64.neg
  | _ => none

mutual

/-- The expressions are built alike, from numbers of equal value. -/
def sameValue : Expr → Expr → Bool
  | num x, num y => x.sameValue y
  | sym a, sym b => a == b
  | neg a, neg b => sameValue a b
  | binary op a b, binary op' a' b' => op == op' && sameValue a a' && sameValue b b'
  | call f args, call f' args' => f == f' && sameValues args args'
  | _, _ => false

/-- The lists are equally long and their expressions agree one by one. -/
def sameValues : List Expr → List Expr → Bool
  | [], [] => true
  | a :: as, b :: bs => sameValue a b && sameValues as bs
  | _, _ => false

end

/-- The symbols of an expression are those that occur in it. -/
theorem mem_symbols {e : Expr} {name : String} : name ∈ e.symbols ↔ name ∈ e.occurrences :=
  NameSet.mem_ofList

/-- An expression mentions the symbols that occur in it. -/
theorem mentions_eq_true {e : Expr} {name : String} :
    e.mentions name = true ↔ name ∈ e.occurrences := by simp [mentions]

mutual

/-- Substituting nothing changes nothing. -/
theorem subst_empty : (e : Expr) → e.subst ∅ = e
  | num _ => rfl
  | sym _ => by simp [subst]
  | neg operand => by simp [subst, subst_empty operand]
  | binary _ lhs rhs => by simp [subst, subst_empty lhs, subst_empty rhs]
  | call _ args => by simp [subst, substAll_empty args]

/-- Substituting nothing leaves arguments as they are. -/
theorem substAll_empty : (es : List Expr) → substAll ∅ es = es
  | [] => rfl
  | e :: es => by simp [substAll, subst_empty e, substAll_empty es]

end

end Expr

end FlatNet
