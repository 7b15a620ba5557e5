import FlatNet.Circuit.Expansion

/-!
# Completion of circuits

A flat circuit is completed by what follows from its elements: its nodes, its unknowns, its
sources, the definitions of the global parameters that it uses, and the parameters that nothing
defines.  The names that the netlist declares are checked against these.  Without a ground node
nothing but the nodes is determined.
-/

set_option autoImplicit false

namespace FlatNet.Circuit

/-- The nodes that elements are connected to. -/
def connectedNodes (c : Circuit) : NameSet :=
  NameSet.ofList (c.elements.values.flatMap Element.nodes)

/-- The potential of a node. -/
def potentialName (node : String) : String := "V_" ++ node

/-- The branch variables of an element. -/
def branchNames (e : Element) : List String :=
  match e.primitive? with
  | some p => p.spec.branches.map fun branch => branch ++ "_" ++ e.refDes
  | none => []

/-- The unknowns: the potentials of all nodes but ground, then the branch variables. -/
def unknownNames (c : Circuit) : List String :=
  (c.nodes.toList.filter (· != groundNode)).map potentialName ++
    c.elements.values.flatMap branchNames

/-- The names of the elements with a primitive model whose device has a property. -/
def elementsWith (c : Circuit) (property : Device → Bool) : List String :=
  (c.elements.values.filter fun e => e.primitive?.isSome && property e.device).map Element.refDes

/-- The circuit with its unknowns, and with its sources added to the lists. -/
def withUnknowns (c : Circuit) : Circuit :=
  { c with
    unknowns := c.unknownNames
    independentSources := c.independentSources ++ c.elementsWith Device.isIndependentSource
    controlledSources := c.controlledSources ++ c.elementsWith Device.isControlledSource }

/-- The symbols of an element's parameters, one entry for each occurrence. -/
def elementSymbols (e : Element) : List String := e.params.values.flatMap Expr.occurrences

/-- The symbols that the circuit uses, reserved ones apart. -/
def usedSymbols (c : Circuit) : NameSet :=
  NameSet.ofList <|
    (c.elements.values.flatMap elementSymbols ++ c.params.values.flatMap Expr.occurrences).filter
      fun name => !isReserved name

/-- The circuit with the definitions of the global parameters that it uses, and with the names
that nothing defines. -/
def withGlobals (c : Circuit) (g : Globals) : Circuit :=
  let c := { c with params := g.pull c.usedSymbols.toList c.params }
  { c with undefined := c.usedSymbols.filter fun name => !c.params.contains name }

/-- The place of the first element that uses each symbol. -/
def firstUses (c : Circuit) : NameMap Origin :=
  c.elements.values.foldl
    (fun uses e => (elementSymbols e).foldl (fun m name => m.insertIfNew name e.origin) uses) ∅

/-- A finding for every undefined parameter, placed at the first element that uses it. -/
def undefinedFindings (c : Circuit) : List Finding :=
  let uses := c.firstUses
  c.undefined.toList.map fun name => .usual (.undefinedParameter name) uses[name]?

/-- Findings for the declared names that are not in a list. -/
def declarationFindings (problem : String → Problem) (names : List String)
    (declarations : List Declaration) : List Finding :=
  (declarations.filter fun d => !names.contains d.name).map fun d =>
    .usual (problem d.name) (some d.origin)

/-- Findings for declared sources, detectors and loop gain references that are none. -/
def allDeclarationFindings (c : Circuit) : List Finding :=
  declarationFindings .unknownSource c.independentSources c.sources ++
  declarationFindings .unknownDetector c.unknowns c.detectors ++
  declarationFindings .unknownLoopGainReference c.controlledSources c.loopGainRefs

/-- The completed circuit, and what was found wrong. -/
def complete (c : Circuit) (g : Globals) : Circuit × List Finding :=
  let c := { c with nodes := c.connectedNodes }
  let (c, findings) :=
    if c.hasGround then
      let c := c.withUnknowns.withGlobals g
      (c, c.undefinedFindings ++ c.allDeclarationFindings)
    else (c, [.usual (.missingGround groundNode) none])
  ({ c with errors := c.errors + errorCount findings }, findings)

end FlatNet.Circuit

namespace FlatNet.Workspace

/-- Completes a circuit with the global parameters of the workspace. -/
def complete (w : Workspace) (c : Circuit) : Workspace × Circuit :=
  let (c, findings) := c.complete w.globals
  (w.recordAll findings, c)

end FlatNet.Workspace
