import FlatNet.Circuit.Basic
import FlatNet.Circuit.Instance
import FlatNet.Workspace

/-!
# Expansion of instances

A netlist becomes a flat circuit by replacing every instance by copies of its sub-circuit's
elements.  Instances are expanded level by level: first those of the netlist itself, then those
that the first ones have brought in, and so on, in the order in which they appeared.  The nesting
and the number of expansions are limited, so a sub-circuit may contain itself.
-/

set_option autoImplicit false

namespace FlatNet

namespace Expansion

/-- What instances are expanded from, and the largest number of expansions. -/
structure Setting where
  prototype? : PrototypeKey → Option Definition
  globals : Globals
  maxDepth : Nat
  maxExpansions : Nat

/-- The state of expansion. -/
structure Progress where
  circuit : Circuit
  findings : Array Finding
  /-- The number of instances expanded so far. -/
  expansions : Nat
  /-- The limit of expansions has been passed. -/
  aborted : Bool
  /-- The instances found for the next level. -/
  next : Array String

namespace Progress

/-- Notes a finding. -/
def report (p : Progress) (f : Finding) : Progress := { p with findings := p.findings.push f }

/-- Takes an element out of the circuit. -/
def erase (p : Progress) (name : String) : Progress :=
  { p with circuit := { p.circuit with elements := p.circuit.elements.erase name } }

/-- Puts an element into the circuit; an instance is due in the next level. -/
def insert (p : Progress) (e : Element) : Progress :=
  { p with
    circuit := { p.circuit with elements := p.circuit.elements.insert e.refDes e }
    next := if e.prototype?.isSome then p.next.push e.refDes else p.next }

end Progress

/-- Puts a copied element into the circuit, unless it is unbound or its name is taken. -/
def addCopy (i : Instance) (inner copied : Element) (p : Progress) : Progress :=
  match copied.binding with
  | .unresolved model =>
    p.report (.usual (.unknownModel copied.refDes model) (some inner.origin))
  | _ =>
    if p.circuit.elements.contains copied.refDes then
      p.report (.usual (.nameCollision copied.refDes) (some i.element.origin))
    else p.insert copied

/-- Copies one element of an instance's sub-circuit. -/
def expandElement (g : Globals) (i : Instance) (state : Progress × Instance.Memo)
    (inner : Element) : Progress × Instance.Memo :=
  let (copied, m) := i.copy g state.2 inner
  (addCopy i inner copied state.1, m)

/-- Replaces an instance, which has been taken out of the circuit, by the elements of its
sub-circuit, and adds the parameters that they need. -/
def expandInstance (g : Globals) (i : Instance) (p : Progress) : Progress :=
  let (p, m) := i.proto.elements.values.foldl (expandElement g i) (p, Instance.Memo.empty)
  { p with circuit := { p.circuit with params := i.addParams g p.circuit.params m } }

/-- Counts an expansion, and gives up when there are too many. -/
def expandCounted (s : Setting) (e : Element) (key : PrototypeKey) (p : Progress) : Progress :=
  let p := { p with expansions := p.expansions + 1 }
  if s.maxExpansions < p.expansions then
    { p with aborted := true }.report (.usual (.expansionLimit s.maxExpansions) (some e.origin))
  else
    match s.prototype? key with
    | none => p.report (.usual (.unknownSubcircuit e.refDes key.path) (some e.origin))
    | some proto => expandInstance s.globals ⟨e, proto⟩ p

/-- Expands the instance of a name. -/
def expandNamed (s : Setting) (p : Progress) (name : String) : Progress :=
  if p.aborted then p
  else
    match p.circuit.elements[name]? with
    | none => p
    | some e =>
      match e.prototype? with
      | none => p
      | some key => expandCounted s e key (p.erase name)

/-- Takes out an instance that is nested too deeply. -/
def refuseNamed (s : Setting) (p : Progress) (name : String) : Progress :=
  match p.circuit.elements[name]? with
  | none => p
  | some e =>
    match e.prototype? with
    | none => p
    | some _ =>
      (p.erase name).report (.usual (.depthLimit e.refDes s.maxDepth) (some e.origin))

/-- Expands a level of instances and the levels below it, as many as are allowed. -/
def expandLevels (s : Setting) : Nat → List String → Progress → Progress
  | 0, level, p => level.foldl (refuseNamed s) p
  | n + 1, level, p =>
    let p := level.foldl (expandNamed s) { p with next := #[] }
    if p.aborted || p.next.isEmpty then p else expandLevels s n p.next.toList p

/-- The circuit of a netlist before expansion. -/
def start (root : Definition) : Circuit :=
  { Circuit.titled root.title with
    elements := root.elements
    params := root.params
    sources := root.sources
    detectors := root.detectors
    loopGainRefs := root.loopGainRefs }

/-- The names of the instances among elements. -/
def instanceNames (elements : NameMap Element) : List String :=
  (elements.values.filter fun e => e.prototype?.isSome).map Element.refDes

/-- The circuit of a netlist after expansion, with what was found wrong; instances that have not
been expanded are left out. -/
def flatten (s : Setting) (root : Definition) : Circuit × List Finding :=
  let circuit := start root
  let p := expandLevels s s.maxDepth (instanceNames circuit.elements)
    ⟨circuit, #[], 0, false, #[]⟩
  let findings := p.findings.toList
  ({ p.circuit with
      elements := p.circuit.elements.filter fun _ e => e.primitive?.isSome
      errors := errorCount findings }, findings)

end Expansion

namespace Workspace

/-- The global parameters of a workspace. -/
def globals (w : Workspace) : Globals := ⟨w.user, w.builtin⟩

/-- What the instances of the netlist are expanded from. -/
def expansionSetting (w : Workspace) : Expansion.Setting :=
  { prototype? := fun key => (w.definitions key.store)[key.path]?
    globals := w.globals
    maxDepth := w.settings.maxDepth
    maxExpansions := w.settings.maxExpansions }

/-- The flat circuit of the netlist that has been read; its errors include those of the
definitions. -/
def flatten (w : Workspace) : Workspace × Circuit :=
  let (circuit, findings) :=
    match w.forest[""]? with
    | none => (Circuit.empty, [])
    | some root => Expansion.flatten w.expansionSetting root
  (w.recordAll findings, { circuit with errors := circuit.errors + w.forestErrors })

end Workspace

end FlatNet
