import FlatNet.Definition
import FlatNet.Expr.Printer

/-!
# Flat circuits

A flat circuit has primitive elements only.  Besides elements and parameters it lists the nodes,
the unknowns that a solver has to find, the sources, and the declarations of the netlist.
-/

set_option autoImplicit false

namespace FlatNet

/-- A flattened circuit. -/
structure Circuit where
  title : String
  /-- The elements by their reference designators. -/
  elements : NameMap Element
  /-- The parameters of the netlist, of its expanded instances and of the libraries it uses. -/
  params : NameMap Expr
  /-- The unknowns: node potentials, then branch variables. -/
  unknowns : List String
  independentSources : List String
  controlledSources : List String
  nodes : NameSet
  sources : List Declaration
  detectors : List Declaration
  loopGainRefs : List Declaration
  /-- The parameters that are used and not defined. -/
  undefined : NameSet
  /-- The number of errors; a circuit with errors is not to be solved. -/
  errors : Nat

namespace Circuit

/-- A circuit of which only the title is known. -/
def titled (title : String) : Circuit :=
  { title
    elements := ∅
    params := ∅
    unknowns := []
    independentSources := []
    controlledSources := []
    nodes := ∅
    sources := []
    detectors := []
    loopGainRefs := []
    undefined := ∅
    errors := 0 }

/-- A circuit without anything. -/
def empty : Circuit := titled ""

instance : Inhabited Circuit := ⟨empty⟩

/-- The circuit was compiled without errors. -/
def isOk (c : Circuit) : Bool := c.errors == 0

/-- An element is connected to ground. -/
def hasGround (c : Circuit) : Bool := c.nodes.contains groundNode

/-- The number of nodes besides ground. -/
def nodeCount (c : Circuit) : Nat := c.nodes.size - (if c.hasGround then 1 else 0)

end Circuit

/-! ## The written form -/

/-- A parameter with its value in braces. -/
def assignmentText (name : String) (value : Expr) : String :=
  name ++ "=\x7b" ++ value.text ++ "\x7d"

namespace Element

/-- The name of the model that the element is bound to, or else the name on its line. -/
def shownModel (e : Element) : String := (e.primitive?.map Primitive.name).getD e.modelName

/-- The line of an element. -/
def text (e : Element) : String :=
  " ".intercalate
    ([e.refDes, e.shownModel] ++ e.nodes ++ e.refs ++
      e.params.toList.map fun (name, value) => assignmentText name value)

end Element

namespace Circuit

/-- A comment line that lists names. -/
def listText (what : String) (names : List String) : String :=
  "* " ++ what ++ ": " ++ " ".intercalate names

/-- The lines of a circuit: title, elements, parameters, and its lists as comments. -/
def lines (c : Circuit) : List String :=
  ["\"" ++ c.title ++ "\""] ++
  c.elements.values.map Element.text ++
  c.params.toList.map (fun (name, value) => ".param " ++ assignmentText name value) ++
  [listText "nodes" c.nodes.toList,
   listText "dependent variables" c.unknowns,
   listText "independent sources" c.independentSources,
   listText "controlled sources" c.controlledSources] ++
  (if c.undefined.isEmpty then [] else [listText "undefined parameters" c.undefined.toList]) ++
  ["* errors: " ++ toString c.errors]

/-- The written form of a circuit. -/
def text (c : Circuit) : String := "\n".intercalate c.lines

end Circuit

end FlatNet
