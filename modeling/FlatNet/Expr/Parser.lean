import FlatNet.Expr.Token

/-!
# Reading expressions

The tokens are read one after another.  What has been opened and not completed yet is kept as a
stack of frames: parentheses, argument lists, operators that wait for their right operand, and
signs.  An operator first completes the frames whose operand it cannot extend, and then waits
itself.  So every token is either taken or refused when it is met, and reading is recursion on the
list of tokens.

The grammar is the usual one: sums of products of powers, power binding to the right, a sign
binding more strongly than a product and less strongly than a power.  A plus sign leaves no trace,
and a minus sign before a plain number becomes part of it.
-/

set_option autoImplicit false

namespace FlatNet.Expr

/-- Something that has been opened and waits for an operand. -/
inductive Frame where
  /-- A parenthesis. -/
  | group
  /-- An argument list, with the arguments that are complete, the last one first. -/
  | call (name : String) (args : List Expr)
  /-- A left operand and its operator. -/
  | left (lhs : Expr) (op : BinaryOp)
  /-- A minus sign. -/
  | minus
  /-- A plus sign. -/
  | plus

/-- What has just been read. -/
inductive Phase where
  /-- Nothing that could be an operand: one is due. -/
  | due
  /-- A name, which is called if a parenthesis follows. -/
  | named (name : String)
  /-- An operand. -/
  | value (operand : Expr)

/-- The state between two tokens: what has just been read, and what is open, innermost first. -/
structure Parsing where
  phase : Phase
  frames : List Frame

/-- A refusal, placed at the refused token or behind it. -/
inductive Refusal where
  | here (fault : Fault)
  | behind (fault : Fault)

/-- The expression behind a minus sign; a plain number takes the sign itself. -/
def negated : Expr → Expr
  | num value => num value.neg
  | e => neg e

/-- Completes the frames whose operand an operator of the given strength does not extend.  With
strength zero all operators and signs down to the innermost parenthesis are completed. -/
def settle (strength : Nat) : Expr → List Frame → Expr × List Frame
  | e, .left lhs op :: frames =>
    if strength < op.rightDemand then settle strength (binary op lhs e) frames
    else (e, .left lhs op :: frames)
  | e, .minus :: frames =>
    if strength < minusStrength + 1 then settle strength (negated e) frames
    else (e, .minus :: frames)
  | e, .plus :: frames =>
    if strength < minusStrength + 1 then settle strength e frames
    else (e, .plus :: frames)
  | e, frames => (e, frames)

namespace Parsing

/-- Nothing has been read. -/
def start : Parsing := ⟨.due, []⟩

/-- The refusal of a token that neither extends nor closes what is open. -/
def refusal (token : Token) : List Frame → Refusal
  | .group :: _ => .behind .unclosedGroup
  | .call _ _ :: _ => .behind .unclosedArguments
  | _ => .here (.unexpectedToken token)

/-- Takes a token behind an operand. -/
def afterValue (e : Expr) (frames : List Frame) (token : Token) : Except Refusal Parsing :=
  match token with
  | .operator op =>
    let (lhs, frames) := settle op.strength e frames
    .ok ⟨.due, .left lhs op :: frames⟩
  | .closing =>
    match settle 0 e frames with
    | (inner, .group :: frames) => .ok ⟨.value inner, frames⟩
    | (last, .call name args :: frames) => .ok ⟨.value (call name (args.reverse ++ [last])), frames⟩
    | (_, frames) => .error (refusal token frames)
  | .comma =>
    match settle 0 e frames with
    | (last, .call name args :: frames) => .ok ⟨.due, .call name (last :: args) :: frames⟩
    | (_, frames) => .error (refusal token frames)
  | _ => .error (refusal token (settle 0 e frames).2)

/-- Takes a token where an operand is due. -/
def whenDue (frames : List Frame) (token : Token) : Except Refusal Parsing :=
  match token with
  | .number value => .ok ⟨.value (num value), frames⟩
  | .name name => .ok ⟨.named name, frames⟩
  | .opening => .ok ⟨.due, .group :: frames⟩
  | .operator .sub => .ok ⟨.due, .minus :: frames⟩
  | .operator .add => .ok ⟨.due, .plus :: frames⟩
  | .closing =>
    match frames with
    | .call name [] :: frames => .ok ⟨.value (call name []), frames⟩
    | _ => .error (.here (.unexpectedToken token))
  | _ => .error (.here (.unexpectedToken token))

/-- Takes one token. -/
def step (s : Parsing) (token : Token) : Except Refusal Parsing :=
  match s.phase with
  | .due => whenDue s.frames token
  | .named name =>
    match token with
    | .opening => .ok ⟨.due, .call name [] :: s.frames⟩
    | _ => afterValue (sym name) s.frames token
  | .value e => afterValue e s.frames token

/-- The expression that has been read when no operator is left to complete it. -/
def complete (e : Expr) (frames : List Frame) : Except Fault Expr :=
  match settle 0 e frames with
  | (e, []) => .ok e
  | (_, .call _ _ :: _) => .error .unclosedArguments
  | (_, _) => .error .unclosedGroup

/-- The expression that has been read at the end of the text. -/
def finish (s : Parsing) : Except Fault Expr :=
  match s.phase with
  | .due => .error .unexpectedEnd
  | .named name => complete (sym name) s.frames
  | .value e => complete e s.frames

/-- The offset of the first token, or of the end of the text. -/
def nextOffset (length : Nat) : List Placed → Nat
  | [] => length
  | placed :: _ => placed.offset

/-- Takes all tokens of a text of the given length. -/
def run (length : Nat) : Parsing → List Placed → Except Failure Expr
  | s, [] =>
    match s.finish with
    | .ok e => .ok e
    | .error fault => .error ⟨length, fault⟩
  | s, placed :: rest =>
    match s.step placed.token with
    | .ok s => run length s rest
    | .error (.here fault) => .error ⟨placed.offset, fault⟩
    | .error (.behind fault) => .error ⟨nextOffset length rest, fault⟩

end Parsing

/-- The expression that a text stands for. -/
def parseChars (cs : List Char) : Except Failure Expr :=
  match Token.scan cs with
  | .ok tokens => Parsing.run cs.length Parsing.start tokens
  | .error failure => .error failure

/-- The expression that a text stands for. -/
def parse (text : String) : Except Failure Expr := parseChars text.toList

end FlatNet.Expr
