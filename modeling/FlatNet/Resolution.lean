import FlatNet.Library.Basic

/-!
# Resolution of names

Every element of a definition is bound: to a primitive model that its device accepts, with all of
that model's parameters, or to a sub-circuit with as many nodes, of which it may set the formal
parameters.  A name on an element line is, in this order, a primitive model, a named model, or a
sub-circuit; the line of an instance names a sub-circuit only.  Sub-circuits and named models are
looked up from the inside to the outside, then in the user library, then in the built-in one.
-/

set_option autoImplicit false

namespace FlatNet

/-- What names are resolved against. -/
structure Surroundings where
  /-- The store that the definitions being resolved belong to. -/
  store : Store
  user : Library
  builtin : Library
  /-- The severity of the Laplace variable in a named model that forbids it. -/
  laplaceSeverity : Severity

/-- An element after an attempt to bind it, and what was found wrong. -/
structure Bound where
  element : Element
  findings : List Finding

namespace Surroundings

/-- The sub-circuit that a name means inside the scope `owner`. -/
def findSubcircuit? (s : Surroundings) (defs : Forest) (owner name : String) :
    Option (PrototypeKey × Definition) :=
  let local? := (Scope.outward owner).findSome? fun scope =>
    let path := Scope.child scope name
    (defs[path]?).map fun d => (⟨s.store, path⟩, d)
  let user? := (s.user.circuits[name]?).map fun d => (⟨.user, name⟩, d)
  let builtin? := (s.builtin.circuits[name]?).map fun d => (⟨.builtin, name⟩, d)
  local?.or (user?.or builtin?)

/-- The named model that a name means inside a definition. -/
def findModel? (s : Surroundings) (defs : Forest) (owner : Definition) (name : String) :
    Option ModelCard :=
  let around? := (Scope.outward owner.path).tail.findSome? fun scope =>
    (defs[scope]?).bind fun d => d.models[name]?
  (owner.models[name]?).or (around?.or ((s.user.models[name]?).or s.builtin.models[name]?))

/-- The sub-circuit that a primitive model stands for; while the built-in library itself is
compiled, it is looked up among the definitions at hand as well. -/
def findExpansion? (s : Surroundings) (defs : Forest) (expansion : String) : Option Definition :=
  (s.builtin.circuits[expansion]?).or
    (if s.store = .builtin then defs[expansion]? else none)

end Surroundings

namespace Element

/-- A problem of the element. -/
def finding (e : Element) (problem : Problem) : Finding := .usual problem (some e.origin)

/-- The element with the values of `defaults` for the parameters that it does not set. -/
def withDefaults (e : Element) (defaults : List (String × Expr)) : Element :=
  { e with params := defaults.foldl (fun m entry => m.insertIfNew entry.1 entry.2) e.params }

/-- The parameters that a primitive model does not have, and those in which it forbids the Laplace
variable that occurs in them. -/
def paramFindings (e : Element) (p : Primitive) : List Finding :=
  e.params.toList.filterMap fun (name, value) =>
    if (p.param? name).isNone then
      some (e.finding (.illegalElementParam e.refDes e.modelName name))
    else if p.forbidsLaplace name && value.mentions laplaceVariable then
      some (e.finding (.laplaceNotAllowed e.refDes name laplaceVariable))
    else none

/-- What keeps an element from being an instance of a sub-circuit: another number of nodes, and
parameters that are no formal ones. -/
def instanceFindings (e : Element) (proto : Definition) : List Finding :=
  (if proto.nodes.length = e.nodes.length then []
    else [e.finding (.portCountMismatch e.refDes proto.name proto.nodes.length e.nodes.length)]) ++
  (e.params.keys.filter fun name => !proto.formals.contains name).map fun name =>
    e.finding (.illegalInstanceParam e.refDes proto.name name)

/-- The element as an instance of a sub-circuit. -/
def bindPrototype (e : Element) (key : PrototypeKey) (proto : Definition) : Bound :=
  ⟨{ e with binding := .prototype key }, e.instanceFindings proto⟩

/-- The element with the values that a named model gives to parameters of its base. -/
def withCard (e : Element) (card : ModelCard) (p : Primitive) : Element :=
  e.withDefaults (card.params.toList.filter fun entry => (p.param? entry.1).isSome)

/-- Binds an element to a primitive model, or to the sub-circuit that the model stands for. -/
def bindPrimitive (e : Element) (s : Surroundings) (defs : Forest) (p : Primitive) : Bound :=
  match p.spec.expansion with
  | none =>
    let filled := e.withDefaults (p.spec.params.map fun spec => (spec.name, .num spec.default))
    ⟨{ filled with binding := .primitive p }, []⟩
  | some expansion =>
    match s.findExpansion? defs expansion with
    | none => ⟨e, [e.finding (.unknownSubcircuit e.refDes expansion)]⟩
    | some circuit =>
      (e.withDefaults circuit.formals.toList).bindPrototype ⟨.builtin, expansion⟩ circuit

/-- Binds an element to a primitive model that its line or a named model gives. -/
def bindModel (e : Element) (s : Surroundings) (defs : Forest) (p : Primitive)
    (card : Option ModelCard) : Bound :=
  if e.device.accepts p then
    let filled := (card.map fun c => e.withCard c p).getD e
    let bound := filled.bindPrimitive s defs p
    { bound with findings := e.paramFindings p ++ bound.findings }
  else ⟨e, [e.finding (.modelNotAllowed e.refDes e.modelName e.device.letter)]⟩

/-- Binds an instance of a sub-circuit. -/
def bindInstance (e : Element) (s : Surroundings) (defs : Forest) (owner : String) : Bound :=
  match s.findSubcircuit? defs owner e.modelName with
  | some (key, proto) => e.bindPrototype key proto
  | none => ⟨e, [e.finding (.unknownSubcircuit e.refDes e.modelName)]⟩

/-- Binds an element of the definition `owner`. -/
def bind (e : Element) (s : Surroundings) (defs : Forest) (owner : Definition) : Bound :=
  if e.device = .subcircuit then e.bindInstance s defs owner.path
  else
    match Primitive.ofName? e.modelName with
    | some p => e.bindModel s defs p none
    | none =>
      match s.findModel? defs owner e.modelName with
      | some card =>
        match card.base? with
        | some p => e.bindModel s defs p (some card)
        | none => ⟨e, [e.finding (.unknownModelBase card.name card.base)]⟩
      | none =>
        match s.findSubcircuit? defs owner.path e.modelName with
        | some (key, proto) => e.bindPrototype key proto
        | none => ⟨e, [e.finding (.unknownModel e.refDes e.modelName)]⟩

end Element

namespace ModelCard

/-- What is wrong with a named model: no such base, parameters that the base does not have, and the
Laplace variable where the base forbids it. -/
def findings (card : ModelCard) (laplaceSeverity : Severity) : List Finding :=
  match card.base? with
  | none => [.usual (.unknownModelBase card.name card.base) (some card.origin)]
  | some p =>
    card.params.toList.filterMap fun (name, value) =>
      if (p.param? name).isNone then
        some (.usual (.illegalModelParam card.name card.base name) (some card.origin))
      else if p.forbidsLaplace name && value.mentions laplaceVariable then
        some ⟨.laplaceNotAllowed card.name name laplaceVariable, laplaceSeverity,
          some card.origin⟩
      else none

end ModelCard

namespace Definition

/-- The references of elements to elements that the definition does not have. -/
def referenceFindings (d : Definition) : List Finding :=
  d.elements.values.flatMap fun e =>
    (e.refs.filter fun target => !d.elements.contains target).map fun target =>
      e.finding (.unknownReference e.refDes target)

/-- Binds an element if it has not been bound yet. -/
def bindOne (d : Definition) (s : Surroundings) (defs : Forest) (e : Element) : Bound :=
  if e.isUnresolved then e.bind s defs d else ⟨e, []⟩

/-- The elements of the definition after binding, and what was found wrong in the definition:
references first, then named models, then elements. -/
def resolve (d : Definition) (s : Surroundings) (defs : Forest) :
    NameMap Element × List Finding :=
  (d.elements.map fun _ e => (d.bindOne s defs e).element,
    d.referenceFindings ++
      d.models.values.flatMap (·.findings s.laplaceSeverity) ++
      d.elements.values.flatMap fun e => (d.bindOne s defs e).findings)

end Definition

namespace Forest

/-- Resolves the definition at a path of the forest, and counts the errors found in it. -/
def resolveAt (s : Surroundings) (state : Forest × List Finding) (path : String) :
    Forest × List Finding :=
  match state.1[path]? with
  | none => state
  | some d =>
    let (elements, findings) := d.resolve s state.1
    (state.1.insert path { d with elements, errors := d.errors + errorCount findings },
      state.2 ++ findings)

/-- Resolves all definitions of a forest, in the order of their paths. -/
def resolve (forest : Forest) (s : Surroundings) : Forest × List Finding :=
  forest.keys.foldl (resolveAt s) (forest, [])

end Forest

end FlatNet
