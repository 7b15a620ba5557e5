import FlatNet.Proofs.Bindings
import FlatNet.Proofs.Lookup
import FlatNet.Proofs.Reading.Draft

/-!
# Soundness of resolution

If resolution finds no error, every element has been bound to what its line says.  `BindsTo` says
what that is: a stamp with a value for each of its parameters, the sub-circuit that another
primitive model stands for, or the sub-circuit that a name means.  It is proved for one element
while the definitions are being resolved one after another, and then carried over to the forest that
is left in the end, in which names mean the same.
-/

set_option autoImplicit false

namespace FlatNet

namespace Element

/-- The primitive model that an element line names in the scope `owner`: the names of primitive
models go first, and a named model stands for its base. -/
inductive MeansPrimitive (s : Surroundings) (defs : Forest) (owner : String) (line : Element) :
    Primitive → Option ModelCard → Prop
  | own {p : Primitive} (hdevice : line.device ≠ .subcircuit)
      (hname : Primitive.ofName? line.modelName = some p) : MeansPrimitive s defs owner line p none
  | card {p : Primitive} {card : ModelCard} (hdevice : line.device ≠ .subcircuit)
      (hname : Primitive.ofName? line.modelName = none)
      (hcard : s.MeansModel defs owner line.modelName card) (hbase : card.base? = some p) :
      MeansPrimitive s defs owner line p (some card)

/-- The value of a parameter: the one on the element line if there is one, else the one of the named
model, else the default. -/
def valueOf (line : Element) (card : Option ModelCard) (spec : ParamSpec) : Expr :=
  ((line.params[spec.name]?).or (card.bind fun c => c.params[spec.name]?)).getD (.num spec.default)

/-- What an element line in the scope `owner` is bound to. -/
inductive BindsTo (s : Surroundings) (defs : Forest) (owner : String) (line : Element) :
    Element → Prop
  /-- A stamp that the device accepts, with a value for exactly the parameters of the model. -/
  | stamp {p : Primitive} {card : Option ModelCard} {params : NameMap Expr}
      (hmodel : line.MeansPrimitive s defs owner p card) (hstamp : p.isStamp = true)
      (haccepts : line.device.accepts p = true)
      (hparams : ∀ name : String, params[name]? = (p.param? name).map (line.valueOf card)) :
      BindsTo s defs owner line (line.rebound (.primitive p) params)
  /-- The built-in sub-circuit that a primitive model stands for. -/
  | expansion {p : Primitive} {card : Option ModelCard} {params : NameMap Expr}
      {expansion : String} {proto : Definition}
      (hmodel : line.MeansPrimitive s defs owner p card) (haccepts : line.device.accepts p = true)
      (hexpansion : p.spec.expansion = some expansion)
      (hproto : s.Denotes defs ⟨.builtin, expansion⟩ proto)
      (hfits : Instance.Fits ⟨line.rebound (.prototype ⟨.builtin, expansion⟩) params, proto⟩) :
      BindsTo s defs owner line (line.rebound (.prototype ⟨.builtin, expansion⟩) params)
  /-- The sub-circuit that the name means. -/
  | circuit {key : PrototypeKey} {proto : Definition}
      (hname : line.device = .subcircuit ∨ (Primitive.ofName? line.modelName = none ∧
        ∀ card, ¬s.MeansModel defs owner line.modelName card))
      (hproto : s.MeansCircuit defs owner line.modelName key proto)
      (hfits : Instance.Fits ⟨line.rebound (.prototype key) line.params, proto⟩) :
      BindsTo s defs owner line (line.rebound (.prototype key) line.params)

variable {s : Surroundings} {defs : Forest} {e : Element} {p : Primitive} {name : String}

/-! ## Values -/

/-- Defaults count where the element sets nothing, the first one of each name. -/
theorem getElem?_withDefaults (e : Element) (defaults : List (String × Expr)) (name : String) :
    (e.withDefaults defaults).params[name]? = (e.params[name]?).or (defaults.lookup name) :=
  NameMap.getElem?_foldl_insertIfNew_eq defaults e.params name

/-- A named model counts where the element sets nothing, for the parameters of its base. -/
theorem getElem?_withCard (e : Element) (card : ModelCard) (p : Primitive) (name : String) :
    (e.withCard card p).params[name]? =
      (e.params[name]?).or (if (p.param? name).isSome then card.params[name]? else none) := by
  have hlookup := NameMap.lookup_filter (fun name => (p.param? name).isSome) card.params.toList name
  unfold withCard
  rw [getElem?_withDefaults, hlookup, NameMap.lookup_toList]

/-- The defaults of a primitive model are those of its parameters. -/
theorem lookup_defaults (p : Primitive) (name : String) :
    (p.spec.params.map fun spec => (spec.name, Expr.num spec.default)).lookup name =
      (p.param? name).map fun spec => .num spec.default := by
  unfold Primitive.param?
  induction p.spec.params with
  | nil => rfl
  | cons spec rest ih =>
    rw [List.map_cons, List.lookup_cons, List.find?_cons, ih, BEq.comm]
    split <;> rfl

/-- What a parameter's value is when an element has been filled in from its named model and from the
defaults of its primitive one. -/
theorem getElem?_filled {card : Option ModelCard} {params : NameMap Expr}
    (hlegal : e.paramFindings p = [])
    (hparams : ∀ name : String, params[name]? = (e.params[name]?).or
      (if (p.param? name).isSome then card.bind fun c => c.params[name]? else none))
    (name : String) :
    (params[name]?).or ((p.param? name).map fun spec => .num spec.default) =
      (p.param? name).map (e.valueOf card) := by
  rw [hparams]
  cases hparam : p.param? name with
  | none =>
    have hname : e.params[name]? = none := by
      refine Std.ExtTreeMap.getElem?_eq_none fun hmem => ?_
      have hsome := isSome_param?_of_paramFindings_eq_nil hlegal hmem
      rw [hparam] at hsome
      exact absurd hsome (by simp)
    rw [hname]
    rfl
  | some spec =>
    obtain rfl := name_of_param? hparam
    rw [Option.isSome_some, if_pos rfl, Option.map_some, Option.map_some]
    unfold valueOf
    cases (e.params[spec.name]?).or (card.bind fun c => c.params[spec.name]?) <;> rfl

/-! ## Binding -/

/-- An element that is bound by way of a primitive model without findings is bound to the stamp or
to the sub-circuit that the model stands for. -/
theorem bindsTo_bindModel {owner : String} {card : Option ModelCard}
    (hmodel : e.MeansPrimitive s defs owner p card)
    (h : (e.bindModel s defs p card).findings = []) :
    e.BindsTo s defs owner (e.bindModel s defs p card).element := by
  unfold bindModel at h ⊢
  split at h
  · rename_i haccepts
    rw [if_pos haccepts]
    obtain ⟨params, hfilled, hparams⟩ : ∃ params,
        (card.map fun c => e.withCard c p).getD e = e.rebound e.binding params ∧
        ∀ name : String, params[name]? = (e.params[name]?).or
          (if (p.param? name).isSome then card.bind fun c => c.params[name]? else none) := by
      cases card with
      | none =>
        refine ⟨e.params, rfl, fun name => ?_⟩
        rw [Option.bind_none, ite_self, Option.or_none]
      | some card => exact ⟨(e.withCard card p).params, rfl, getElem?_withCard e card p⟩
    rw [hfilled] at h ⊢
    obtain ⟨hlegal, h⟩ := List.append_eq_nil_iff.1 h
    dsimp only at h ⊢
    unfold bindPrimitive at h ⊢
    cases hexpansion : p.spec.expansion with
    | none =>
      have hstamp : p.isStamp = true := by
        unfold Primitive.isStamp
        rw [hexpansion]
        rfl
      refine .stamp hmodel hstamp haccepts fun name => ?_
      rw [← getElem?_filled hlegal hparams, ← lookup_defaults]
      exact getElem?_withDefaults (e.rebound e.binding params) _ name
    | some expansion =>
      rw [hexpansion] at h
      dsimp only at h ⊢
      cases hcircuit : s.findExpansion? defs expansion with
      | none =>
        rw [hcircuit] at h
        exact absurd h (List.cons_ne_nil _ _)
      | some circuit =>
        rw [hcircuit] at h
        obtain ⟨hnodes, hnames⟩ := fits_of_instanceFindings h
        exact .expansion hmodel haccepts hexpansion
          (Surroundings.denotes_of_findExpansion? hcircuit) ⟨hnodes, hnames⟩
  · exact absurd h (List.cons_ne_nil _ _)

/-- An element that is bound without findings is bound to what its line says. -/
theorem bindsTo_bind {owner : Definition} (howner : defs[owner.path]? = some owner)
    (h : (e.bind s defs owner).findings = []) :
    e.BindsTo s defs owner.path (e.bind s defs owner).element := by
  have hbound := e.boundBy_bind s defs owner
  generalize e.bind s defs owner = b at hbound h ⊢
  cases hbound with
  | circuit hnames hfound =>
    obtain ⟨hnodes, hlegal⟩ := fits_of_instanceFindings h
    refine .circuit (hnames.imp_right fun hmodel => ⟨hmodel.1, ?_⟩)
      (Surroundings.findSubcircuit?_eq_some_iff.1 hfound) ⟨hnodes, hlegal⟩
    exact (Surroundings.findModel?_eq_none_iff howner).1 hmodel.2
  | primitive hdevice hname => exact bindsTo_bindModel (.own hdevice hname) h
  | card hdevice hname hcard hbase =>
    have hmeans := (Surroundings.findModel?_eq_some_iff howner).1 hcard
    exact bindsTo_bindModel (.card hdevice hname hmeans hbase) h
  | unknownCircuit _ _ | unknownModel _ _ _ | unknownBase _ _ =>
    exact absurd h (List.cons_ne_nil _ _)

end Element

/-! ## Forests -/

namespace Forest.Agree

variable {s : Surroundings} {defs defs' : Forest} {owner : String} {line : Element}

/-- In forests that agree an address stands for definitions with the same interface. -/
theorem denotes (h : defs.Agree defs') {key : PrototypeKey} {proto : Definition}
    (hproto : s.Denotes defs key proto) :
    ∃ proto', s.Denotes defs' key proto' ∧ proto'.interface = proto.interface := by
  rcases hproto with ⟨hstore, hproto⟩ | hlibrary
  · obtain ⟨proto', hproto', hinterface⟩ := h.exists_getElem? hproto
    exact ⟨proto', .inl ⟨hstore, hproto'⟩, hinterface⟩
  · exact ⟨proto, .inr hlibrary, rfl⟩

/-- In forests that agree a line names the same primitive model. -/
theorem meansPrimitive (h : defs.Agree defs') {p : Primitive} {card : Option ModelCard}
    (hmodel : line.MeansPrimitive s defs owner p card) :
    line.MeansPrimitive s defs' owner p card := by
  cases hmodel with
  | own hdevice hname => exact .own hdevice hname
  | card hdevice hname hcard hbase => exact .card hdevice hname (h.meansModel hcard) hbase

/-- In forests that agree an element line is bound to the same. -/
theorem bindsTo (h : defs.Agree defs') {e : Element} (hbinds : line.BindsTo s defs owner e) :
    line.BindsTo s defs' owner e := by
  cases hbinds with
  | stamp hmodel hstamp haccepts hparams =>
    exact .stamp (h.meansPrimitive hmodel) hstamp haccepts hparams
  | expansion hmodel haccepts hexpansion hproto hfits =>
    obtain ⟨proto', hproto', hinterface⟩ := h.denotes hproto
    exact .expansion (h.meansPrimitive hmodel) haccepts hexpansion hproto'
      (hfits.congr (.refl _) hinterface)
  | circuit hname hproto hfits =>
    obtain ⟨proto', hproto', hinterface⟩ := h.meansCircuit hproto
    refine .circuit (hname.imp_right fun hname => ⟨hname.1, fun card hcard => ?_⟩) hproto'
      (hfits.congr (.refl _) hinterface)
    exact hname.2 card (h.symm.meansModel hcard)

end Forest.Agree

namespace Definition

variable {s : Surroundings} {defs : Forest} {d : Definition}

/-- What a definition at a path is resolved to: its elements are bound to what their lines say, and
they refer to elements of the definition. -/
structure ResolvesTo (s : Surroundings) (defs : Forest) (path : String) (d d' : Definition) :
    Prop where
  elements : ∀ name : String,
    Option.Rel (Element.BindsTo s defs path) d.elements[name]? d'.elements[name]?
  references : ∀ e ∈ d'.elements.values, ∀ target ∈ e.refs,
    ∃ other, d'.elements[target]? = some other ∧ other.refDes = target

/-- Without errors an element refers to elements of the definition only. -/
theorem contains_of_mem_refs (h : ∀ f ∈ (d.resolve s defs).2, f.isError = false) {e : Element}
    (he : e ∈ d.elements.values) {target : String} (htarget : target ∈ e.refs) :
    d.elements.contains target = true := by
  by_contra hnot
  have hmem : e.finding (.unknownReference e.refDes target) ∈ (d.resolve s defs).2 := by
    refine List.mem_append_left _ (List.mem_append_left _ (List.mem_flatMap_of_mem he ?_))
    refine List.mem_map_of_mem (List.mem_filter.2 ⟨htarget, ?_⟩)
    rw [Bool.eq_false_iff.2 hnot]
    rfl
  have hfalse := h _ hmem
  rw [e.isError_finding rfl] at hfalse
  exact absurd hfalse (by simp)

/-- A draft that is resolved without errors is resolved to what it says. -/
theorem resolvesTo_resolved (hd : d.IsDraft) (hat : defs[d.path]? = some d)
    (h : ∀ f ∈ (d.resolve s defs).2, f.isError = false) :
    d.ResolvesTo s defs d.path (d.resolved s defs) where
  elements := by
    intro name
    have hname : (d.resolved s defs).elements[name]? =
        (d.elements[name]?).map fun e => (d.bindOne s defs e).element :=
      Std.ExtTreeMap.getElem?_map
    rw [hname]
    cases he : d.elements[name]? with
    | none => exact .none
    | some e =>
      have hmem := NameMap.mem_values.2 ⟨name, he⟩
      have hbind : d.bindOne s defs e = e.bind s defs d := if_pos (hd.unbound e hmem)
      have hnil := findings_bindOne_eq_nil hmem h
      rw [hbind] at hnil
      rw [Option.map_some, hbind]
      exact .some (Element.bindsTo_bind hat hnil)
  references := by
    intro e' he' target htarget
    obtain ⟨e, he, rfl⟩ := mem_values_resolved.1 he'
    obtain ⟨binding, params, hrebound⟩ := rebound_bindOne d s defs e
    rw [hrebound] at htarget
    obtain ⟨before, hbefore⟩ := NameMap.contains_iff.1 (contains_of_mem_refs h he htarget)
    have hafter : (d.resolved s defs).elements[target]? =
        some (d.bindOne s defs before).element :=
      Std.ExtTreeMap.getElem?_map.trans (congrArg (Option.map _) hbefore)
    exact ⟨_, hafter, keyed_resolved hd.keyed target _ hafter⟩

/-- What a definition is resolved to is the same in forests that agree. -/
theorem ResolvesTo.congr {defs' : Forest} {path : String} {d' : Definition}
    (h : d.ResolvesTo s defs path d') (hagree : defs.Agree defs') :
    d.ResolvesTo s defs' path d' where
  elements := by
    intro name
    have hname := h.elements name
    revert hname
    generalize d.elements[name]? = before
    generalize d'.elements[name]? = after
    intro hname
    cases hname with
    | none => exact .none
    | some hbinds => exact .some (hagree.bindsTo hbinds)
  references := h.references

end Definition

/-- Drafts that are resolved without errors are resolved to what they say, one for one. -/
theorem Forest.resolvesTo_resolve {s : Surroundings} {forest : Forest} (hdrafts : forest.Drafts)
    (h : errorCount (forest.resolve s).2 = 0) (path : String) :
    Option.Rel (Definition.ResolvesTo s (forest.resolve s).1 path) forest[path]?
      (forest.resolve s).1[path]? := by
  have hagree : (forest.resolve s).1.Agree forest := agree_foldl_resolveAt forest.keys (forest, [])
  cases hafter : (forest.resolve s).1[path]? with
  | none =>
    rw [hagree.getElem?_eq_none hafter]
    exact .none
  | some d =>
    obtain ⟨d₀, paths, hd₀, hpath, rfl, hsub⟩ := exists_resolved_behind hafter
    obtain ⟨rfl, hdraft⟩ := hdrafts path d₀ hd₀
    have hbehind := agree_foldl_resolveAt (s := s) paths (forest, [])
    have hat : (paths.foldl (resolveAt s) (forest, [])).1[d₀.path]? = some d₀ :=
      (getElem?_foldl_resolveAt_of_not_mem hpath _).trans hd₀
    have hclean := fun f hf => isError_eq_false_of_errorCount_eq_zero h f (hsub hf)
    rw [hd₀]
    exact .some ((Definition.resolvesTo_resolved hdraft hat hclean).congr
      (hbehind.trans hagree.symm))

namespace Workspace

/-- Resolution is sound: if it finds no error in the forest of the texts that have been read, the
definitions are resolved to what they say, whatever the user library and the built-in one are. -/
theorem resolve_sound {w : Workspace} (hbuilt : w.forest.Built) (hresolve : w.resolve.2 = 0)
    (path : String) :
    Option.Rel
      (Definition.ResolvesTo (Loading.surroundings .netlist w.resolve.1) w.resolve.1.forest path)
      w.forest[path]? w.resolve.1.forest[path]? :=
  Forest.resolvesTo_resolve hbuilt.drafts hresolve path

/-- A workspace with nothing but a diode in its built-in library. -/
def withDiode : Workspace :=
  ((withBuiltin {} Library.empty).compileLibraryText Disk.empty .builtin "diode.lib"
    "\"d\"\n.subckt D a c ID=1m n=1\nR1 a c 1\n.ends\n").1.reset

/-- A netlist with stamps, a named model, a diode, coupled inductors and nested sub-circuits. -/
def amplifierText : String :=
  "t\n.subckt amp in out gain=10\n.subckt stage a b\nR1 a b Rn\n.ends\n" ++
    "X1 in mid stage\nE1 out 0 mid 0 \x7bgain\x7d\n.ends\n.model Rn R value=2k\n" ++
    "D1 1 0\nL1 1 0 1m\nL2 2 0 1m\nK1 L1 L2 0.5\nX1 1 2 amp gain=5\n.end\n"

/-- The workspace in which that netlist has been read. -/
def amplifier : Workspace :=
  (withDiode.readSource Disk.empty ⟨"main.cir", .netlist⟩ "" amplifierText).1

/-- The forest of the netlist comes about by reading texts. -/
theorem built_amplifier : amplifier.forest.Built := by
  have hforest : withDiode.forest.Built := .empty
  unfold amplifier
  exact .read hforest rfl Disk.empty ⟨"main.cir", .netlist⟩ "" amplifierText

set_option maxRecDepth 100000 in
/-- The netlist is resolved without errors. -/
theorem resolve_amplifier : amplifier.resolve.2 = 0 := by decide +kernel

set_option maxRecDepth 100000 in
/-- The three definitions of that netlist are resolved to what they say. -/
theorem resolve_sound_amplifier :
    amplifier.forest.keys = ["", "amp", "amp/stage"] ∧
      amplifier.forest.Built ∧ amplifier.resolve.2 = 0 ∧
      ∀ path, Option.Rel (Definition.ResolvesTo
        (Loading.surroundings .netlist amplifier.resolve.1) amplifier.resolve.1.forest path)
        amplifier.forest[path]? amplifier.resolve.1.forest[path]? :=
  ⟨by decide +kernel, built_amplifier, resolve_amplifier,
    resolve_sound built_amplifier resolve_amplifier⟩

end Workspace

end FlatNet
