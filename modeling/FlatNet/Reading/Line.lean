import FlatNet.Definition
import FlatNet.Token.LogicalLine

/-!
# Lines

The parts of a line that can be read without knowing what stands around it: parameter definitions,
the arguments of commands, and whole element lines.  An element line names its nodes, the elements
it refers to and its model or value, in this order, followed by parameters; the line of an instance
names its nodes and then its sub-circuit.
-/

set_option autoImplicit false

namespace FlatNet.Line

/-- The place of a token in a file. -/
def originOf (file : String) (t : Token) : Origin := ⟨file, t.line, t.column⟩

/-- A problem at a token. -/
def findingAt (file : String) (t : Token) (problem : Problem) : Finding :=
  .usual problem (some (originOf file t))

/-- The problem of a token that is not what its place demands. -/
def unexpected (file what : String) (t : Token) : Finding :=
  findingAt file t (.unexpectedToken what t.text)

/-- Parameters, and what was found wrong while they were read. -/
structure ParamList where
  params : NameMap Expr
  findings : List Finding

/-- Takes one token of a list of parameter definitions; a later definition of a name replaces an
earlier one. -/
def ParamList.take (file what : String) (l : ParamList) (t : Token) : ParamList :=
  match t.kind with
  | .paramDef name value => { l with params := l.params.insert name value }
  | _ => { l with findings := l.findings ++ [unexpected file what t] }

/-- Adds the parameter definitions among the tokens; other tokens are faulty. -/
def readParams (file what : String) (params : NameMap Expr) (tokens : List Token) : ParamList :=
  tokens.foldl (ParamList.take file what) ⟨params, []⟩

/-- Why a row of names could not be taken. -/
inductive NameFault where
  | wrong (token : Token)
  | short (found : Nat)

/-- Takes a row of acceptable names of a given length, and returns what follows it. -/
def takeNames (accepts : Token → Bool) :
    Nat → List Token → Except NameFault (List String × List Token)
  | 0, tokens => .ok ([], tokens)
  | _ + 1, [] => .error (.short 0)
  | n + 1, t :: rest =>
    if accepts t then
      match takeNames accepts n rest with
      | .ok (names, behind) => .ok (t.text :: names, behind)
      | .error (.short found) => .error (.short (found + 1))
      | .error fault => .error fault
    else .error (.wrong t)

/-- The finding of a row of names that could not be taken from the line of `head`. -/
def NameFault.finding (file : String) (head : Token) (what many : String) (expected : Nat) :
    NameFault → Finding
  | .wrong t => unexpected file what t
  | .short found =>
    findingAt file head (.incompleteElement head.text
      ("expected " ++ toString expected ++ " " ++ many ++ ", found " ++ toString found))

/-- An element that has not been bound, without parameters. -/
def newElement (file : String) (head : Token) (device : Device) (modelName : String)
    (nodes refs : List String) : Element :=
  { refDes := head.text
    device := device
    modelName := modelName
    binding := .unresolved modelName
    nodes := nodes
    refs := refs
    params := ∅
    origin := originOf file head }

/-- The tokens of an instance line before its parameters: nodes, then the sub-circuit. -/
def readInstance (file : String) (head : Token) (device : Device) (fields : List Token) :
    Except Finding Element :=
  match fields.getLast? with
  | none =>
    .error (findingAt file head (.incompleteElement head.text "missing sub-circuit name"))
  | some name =>
    if !name.isIdentifier then .error (unexpected file "sub-circuit name" name)
    else
      match fields.dropLast.find? fun t => !t.isNodeName with
      | some t => .error (unexpected file "node name" t)
      | none => .ok (newElement file head device name.text (fields.dropLast.map Token.text) [])

/-- The name of the model that an element has if its line gives only a value. -/
def defaultModelName (device : Device) : String :=
  (device.defaultModel?.map Primitive.name).getD ""

/-- The model or value of an element line, and what follows it. -/
def readModel (file : String) (head : Token) (device : Device) :
    List Token → Except Finding (String × Option Expr × List Token)
  | [] =>
    if device.spec.valueRequired then
      .error (findingAt file head (.incompleteElement head.text "missing model name or value"))
    else .ok (defaultModelName device, none, [])
  | t :: rest =>
    if t.isIdentifier then .ok (t.text, none, rest)
    else
      match t.value? with
      | some value => .ok (defaultModelName device, some value, rest)
      | none => .error (unexpected file "model name or value" t)

/-- The tokens of an element line before its parameters: nodes, references, model or value. -/
def readFields (file : String) (head : Token) (device : Device) (fields : List Token) :
    Except Finding Element := do
  let nodeCount := device.spec.nodes.getD 0
  let (nodes, fields) ← (takeNames Token.isNodeName nodeCount fields).mapError
    (NameFault.finding file head "node name" "nodes" nodeCount)
  let (refs, fields) ← (takeNames Token.isIdentifier device.spec.refs fields).mapError
    (NameFault.finding file head "element reference" "element references" device.spec.refs)
  let (modelName, value?, fields) ← readModel file head device fields
  match fields with
  | t :: _ => .error (unexpected file "field" t)
  | [] =>
    let element := newElement file head device modelName nodes refs
    .ok { element with params := (value?.map fun v => element.params.insert "value" v).getD ∅ }

/-- An element, and what was found wrong in its parameters. -/
structure ElementLine where
  element : Element
  findings : List Finding

/-- An element line of a known device: `head` is the reference designator. -/
def readElement (file : String) (head : Token) (device : Device) (tokens : List Token) :
    Except Finding ElementLine :=
  let fields := tokens.takeWhile fun t => !t.isParamDef
  let element? :=
    if device = .subcircuit then readInstance file head device fields
    else readFields file head device fields
  match element? with
  | .error finding => .error finding
  | .ok element =>
    let list := readParams file "parameter definition" element.params
      (tokens.dropWhile fun t => !t.isParamDef)
    .ok ⟨{ element with params := list.params }, list.findings⟩

/-- A named model line, behind its command: its first token, the model, and what was found wrong
in its parameters. -/
def readCard? (file : String) (args : List Token) :
    Option (Token × ModelCard × List Finding) :=
  match args with
  | name :: base :: rest =>
    if name.isIdentifier && base.isIdentifier then
      let list := readParams file "model parameter" ∅ rest
      some (name, ⟨name.text, base.text, list.params, originOf file name⟩, list.findings)
    else none
  | _ => none

/-- What is known of a sub-circuit from its first line. -/
structure Heading where
  nodes : List String
  formals : NameMap Expr
  findings : List Finding

/-- Takes one argument of a sub-circuit line; nodes stand before the formal parameters. -/
def Heading.take (file : String) (h : Heading) (t : Token) : Heading :=
  match t.kind with
  | .paramDef name value => { h with formals := h.formals.insert name value }
  | _ =>
    if t.isNodeName && h.formals.isEmpty then { h with nodes := h.nodes ++ [t.text] }
    else { h with findings := h.findings ++ [unexpected file "sub-circuit argument" t] }

/-- The arguments of a sub-circuit line behind its name. -/
def readHeading (file : String) (args : List Token) : Heading :=
  args.foldl (Heading.take file) ⟨[], ∅, []⟩

end FlatNet.Line
