import FlatNet.Catalogue.Device
import FlatNet.Diagnostic
import FlatNet.Expr.Basic
import FlatNet.Scope

/-!
# Circuit definitions

A definition holds what one netlist, one library or one sub-circuit says: its elements, models,
parameters and declarations, and, for a sub-circuit, its nodes and formal parameters.
-/

set_option autoImplicit false

namespace FlatNet

/-- The places where definitions are kept. -/
inductive Store where
  /-- The netlist that is being compiled. -/
  | netlist
  /-- What user libraries have contributed. -/
  | user
  /-- What built-in libraries have contributed. -/
  | builtin
  deriving DecidableEq

/-- The address of a sub-circuit. -/
structure PrototypeKey where
  store : Store
  path : String
  deriving DecidableEq

namespace PrototypeKey

/-- The name of the sub-circuit. -/
def name (key : PrototypeKey) : String := Scope.lastName key.path

end PrototypeKey

/-- What an element is bound to. -/
inductive Binding where
  /-- A name that has not been looked up. -/
  | unresolved (name : String)
  /-- A primitive model. -/
  | primitive (model : Primitive)
  /-- A sub-circuit that the element is expanded into. -/
  | prototype (key : PrototypeKey)
  deriving DecidableEq

/-- An element of a circuit. -/
structure Element where
  /-- The reference designator, unique in its definition. -/
  refDes : String
  device : Device
  /-- The name of the model or sub-circuit as it is written. -/
  modelName : String
  binding : Binding
  nodes : List String
  /-- The names of the elements that this one refers to. -/
  refs : List String
  params : NameMap Expr
  origin : Origin

namespace Element

/-- The primitive model that the element is bound to. -/
def primitive? (e : Element) : Option Primitive :=
  match e.binding with
  | .primitive p => some p
  | _ => none

/-- The sub-circuit that the element is an instance of. -/
def prototype? (e : Element) : Option PrototypeKey :=
  match e.binding with
  | .prototype key => some key
  | _ => none

/-- The element has not been bound. -/
def isUnresolved (e : Element) : Bool :=
  match e.binding with
  | .unresolved _ => true
  | _ => false

end Element

/-- A named model: a primitive one with some of its parameters fixed. -/
structure ModelCard where
  name : String
  /-- The name of the primitive model. -/
  base : String
  params : NameMap Expr
  origin : Origin

namespace ModelCard

/-- The primitive model that the card is based on. -/
def base? (card : ModelCard) : Option Primitive := Primitive.ofName? card.base

end ModelCard

/-- A name that is declared as a source, a detector or a loop gain reference. -/
structure Declaration where
  name : String
  origin : Origin
  deriving DecidableEq

/-- The definition of a circuit: a netlist, a library or a sub-circuit. -/
structure Definition where
  name : String
  path : String
  title : String
  /-- The nodes by which a sub-circuit is connected. -/
  nodes : List String
  /-- The parameters of a sub-circuit with their defaults. -/
  formals : NameMap Expr
  elements : NameMap Element
  models : NameMap ModelCard
  params : NameMap Expr
  /-- The library files that are referred to. -/
  libraries : List String
  sources : List Declaration
  detectors : List Declaration
  loopGainRefs : List Declaration
  /-- The names of the sub-circuits defined directly inside. -/
  subcircuits : List String
  /-- The number of errors found in the definition. -/
  errors : Nat
  origin : Option Origin

namespace Definition

/-- A definition that says nothing yet. -/
def blank (name path title : String) (origin : Option Origin) : Definition :=
  { name, path, title, origin
    nodes := []
    formals := ∅
    elements := ∅
    models := ∅
    params := ∅
    libraries := []
    sources := []
    detectors := []
    loopGainRefs := []
    subcircuits := []
    errors := 0 }

instance : Inhabited Definition := ⟨blank "" "" "" none⟩

end Definition

/-- The definitions of a source text, by their paths. -/
abbrev Forest : Type := NameMap Definition

namespace Forest

/-- The errors counted in all definitions. -/
def errors (forest : Forest) : Nat := forest.values.foldr (fun d n => d.errors + n) 0

end Forest

end FlatNet
