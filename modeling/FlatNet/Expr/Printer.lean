import FlatNet.Expr.Basic
import FlatNet.Number.Format

/-!
# The written form of expressions

Parentheses are written where an operand binds less strongly than its place demands.  Power binds
to the right, the other operators to the left, and a minus sign binds more strongly than a product
and less strongly than a power.
-/

set_option autoImplicit false

namespace FlatNet

namespace BinaryOp

/-- How strongly the operator binds its operands. -/
def strength : BinaryOp → Nat
  | add => 1
  | sub => 1
  | mul => 2
  | div => 2
  | pow => 4

/-- The sign of the operator. -/
def sign : BinaryOp → String
  | add => "+"
  | sub => "-"
  | mul => "*"
  | div => "/"
  | pow => "^"

/-- What the left operand must bind with to stand without parentheses. -/
def leftDemand (op : BinaryOp) : Nat := if op = pow then op.strength + 1 else op.strength

/-- What the right operand must bind with to stand without parentheses. -/
def rightDemand (op : BinaryOp) : Nat := if op = pow then op.strength else op.strength + 1

end BinaryOp

/-- How strongly a minus sign binds its operand. -/
def minusStrength : Nat := 3

namespace Expr

/-- The expression stands without parentheses where this strength is demanded. -/
def meets (e : Expr) (demand : Nat) : Bool :=
  match e with
  | binary op _ _ => demand ≤ op.strength
  | neg _ => demand ≤ minusStrength
  | _ => true

/-- The written form of an operand, given its own written form. -/
def enclose (e : Expr) (demand : Nat) (written : String) : String :=
  if e.meets demand then written else "(" ++ written ++ ")"

mutual

/-- The written form of an expression. -/
def text : Expr → String
  | num value => value.text
  | sym name => name
  | neg operand => "-" ++ enclose operand (minusStrength + 1) (text operand)
  | binary op lhs rhs =>
    enclose lhs op.leftDemand (text lhs) ++ op.sign ++ enclose rhs op.rightDemand (text rhs)
  | call name args => name ++ "(" ++ ", ".intercalate (texts args) ++ ")"

/-- The written forms of a list of expressions. -/
def texts : List Expr → List String
  | [] => []
  | arg :: args => text arg :: texts args

end

end Expr

end FlatNet
