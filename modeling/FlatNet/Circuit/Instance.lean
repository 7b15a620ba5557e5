import FlatNet.Circuit.Globals

/-!
# Instances

An instance of a sub-circuit gives meaning to the names inside it.  The nodes of the sub-circuit's
interface are the nodes of the instance, ground is ground, and every other node becomes a node of
its own.  A symbol is, in this order, reserved, a parameter that the instance sets, a formal
parameter with its default, a parameter defined inside the sub-circuit, a global parameter, or a
free symbol; apart from reserved symbols and globals a symbol that remains is renamed.

Defaults may use other formal parameters.  A default that leads back to its own parameter leaves
the parameter's renamed symbol where the circle closes.
-/

set_option autoImplicit false

namespace FlatNet

/-- An instance of a sub-circuit. -/
structure Instance where
  element : Element
  proto : Definition

namespace Instance

/-- The name that a name inside the sub-circuit gets outside it. -/
def rename (i : Instance) (name : String) : String := name ++ "_" ++ i.element.refDes

/-- The nodes of the interface, each with the node it is connected to; of two interface nodes with
one name the later one counts. -/
def connections (i : Instance) : NameMap String :=
  (i.proto.nodes.zip i.element.nodes).foldl (fun m joined => m.insert joined.1 joined.2) ∅

/-- The node that a node inside the sub-circuit is outside it. -/
def node (i : Instance) (name : String) : String :=
  if name = groundNode then name else (i.connections[name]?).getD (i.rename name)

/-- The symbols resolved so far, and those among them that are global parameters. -/
structure Memo where
  resolved : NameMap Expr
  globals : NameSet

/-- Nothing resolved. -/
def Memo.empty : Memo := ⟨∅, ∅⟩

/-- Notes the value of a symbol. -/
def Memo.note (m : Memo) (name : String) (value : Expr) : Memo :=
  { m with resolved := m.resolved.insert name value }

/-- Taking away an entry that is there leaves fewer. -/
theorem size_erase_lt {α : Type} {m : NameMap α} {name : String} {value : α}
    (h : m[name]? = some value) : (m.erase name).size < m.size := by
  have hmem : name ∈ m := Std.ExtTreeMap.mem_iff_isSome_getElem?.2 (by simp [h])
  have hpos : m.size ≠ 0 := by
    intro h0
    have : m = ∅ := Std.ExtTreeMap.eq_empty_iff_size_eq_zero.2 h0
    rw [this] at hmem
    simp at hmem
  rw [Std.ExtTreeMap.size_erase, if_pos (Std.ExtTreeMap.contains_iff_mem.2 hmem)]
  omega

mutual

/-- The value of a symbol, where `defaults` are the formal parameters whose defaults are not
being resolved at the moment. -/
def resolve (i : Instance) (g : Globals) (defaults : NameMap Expr) (m : Memo) (name : String) :
    Expr × Memo :=
  match m.resolved[name]? with
  | some value => (value, m)
  | none =>
    let renamed := Expr.sym (i.rename name)
    if isReserved name then (.sym name, m.note name (.sym name))
    else
      match i.element.params[name]? with
      | some actual => (actual, m.note name actual)
      | none =>
        match _h : defaults[name]? with
        | some default =>
          let (bindings, m) :=
            resolveAll i g (defaults.erase name) m default.symbols.toList ∅
          let value := default.subst bindings
          (value, m.note name value)
        | none =>
          if i.proto.formals.contains name || i.proto.params.contains name then
            (renamed, m.note name renamed)
          else if g.contains name then
            (.sym name, { m with globals := m.globals.insert name }.note name (.sym name))
          else (renamed, m.note name renamed)
termination_by (defaults.size, 0)
decreasing_by exact Prod.Lex.left _ _ (size_erase_lt _h)

/-- The values of several symbols, added to `bindings`. -/
def resolveAll (i : Instance) (g : Globals) (defaults : NameMap Expr) (m : Memo)
    (names : List String) (bindings : NameMap Expr) : NameMap Expr × Memo :=
  match names with
  | [] => (bindings, m)
  | name :: rest =>
    let (value, m) := resolve i g defaults m name
    resolveAll i g defaults m rest (bindings.insert name value)
termination_by (defaults.size, names.length)
decreasing_by
  · exact Prod.Lex.right _ (by simp)
  · exact Prod.Lex.right _ (by simp)

end

/-- An expression inside the sub-circuit as it stands outside it. -/
def outside (i : Instance) (g : Globals) (m : Memo) (e : Expr) : Expr × Memo :=
  let (bindings, m) := i.resolveAll g i.proto.formals m e.symbols.toList ∅
  (e.subst bindings, m)

/-- Parameters inside the sub-circuit as they stand outside it, in the order of their names. -/
def outsideAll (i : Instance) (g : Globals) (m : Memo) (params : NameMap Expr) :
    NameMap Expr × Memo :=
  params.toList.foldl
    (fun (done, m) (name, value) =>
      let (value, m) := i.outside g m value
      (done.insert name value, m))
    (∅, m)

/-- The copy of an element of the sub-circuit. -/
def copy (i : Instance) (g : Globals) (m : Memo) (e : Element) : Element × Memo :=
  let (params, m) := i.outsideAll g m e.params
  ({ e with
      refDes := i.rename e.refDes
      refs := e.refs.map i.rename
      nodes := e.nodes.map i.node
      params := params }, m)

/-- Adds the definition of a parameter of the sub-circuit to those of a circuit, under its name
outside; a definition that is there is kept.  Formal parameters are no definitions. -/
def addParam (i : Instance) (g : Globals) (state : NameMap Expr × Memo) (name : String)
    (value : Expr) : NameMap Expr × Memo :=
  if i.proto.formals.contains name then state
  else
    let (value, m) := i.outside g state.2 value
    (state.1.insertIfNew (i.rename name) value, m)

/-- Adds the definitions of all parameters of the sub-circuit, and those of the global parameters
that have been met. -/
def addParams (i : Instance) (g : Globals) (params : NameMap Expr) (m : Memo) : NameMap Expr :=
  let (params, m) := i.proto.params.toList.foldl
    (fun state (name, value) => i.addParam g state name value) (params, m)
  g.pull m.globals.toList params

end Instance

end FlatNet
