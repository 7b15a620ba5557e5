import FlatNet.Proofs.Element
import FlatNet.Resolution

/-!
# What resolution leaves behind

Binding an element changes its binding and adds parameters; everything that can go wrong is an
error.  So an element without findings is bound, and soundly.  Resolution of a forest takes every
definition once: `Forest.resolve_spec` says that what stands at a path afterwards is what stood
there before, resolved among some definitions.
-/

set_option autoImplicit false

namespace FlatNet

/-! ## Errors -/

/-- No findings are no errors, and no errors among errors are no findings. -/
theorem eq_nil_of_errorCount_eq_zero {findings : List Finding}
    (herrors : ∀ f ∈ findings, f.isError = true) (h : errorCount findings = 0) :
    findings = [] := by
  cases findings with
  | nil => rfl
  | cons f rest =>
    have hpos : 0 < errorCount (f :: rest) :=
      List.countP_pos_iff.2 ⟨f, List.mem_cons_self, herrors f List.mem_cons_self⟩
    omega

/-- If no errors are counted among findings, none of them is an error. -/
theorem isError_eq_false_of_errorCount_eq_zero {findings : List Finding}
    (h : errorCount findings = 0) : ∀ f ∈ findings, f.isError = false :=
  fun f hf => Bool.eq_false_iff.2 (List.countP_eq_zero.1 h f hf)

/-- The errors in two lists of findings add up. -/
theorem errorCount_append (fs fs' : List Finding) :
    errorCount (fs ++ fs') = errorCount fs + errorCount fs' := List.countP_append

/-! ## Defaults -/

namespace Element

/-- Defaults add their names to the parameters. -/
theorem mem_params_withDefaults {e : Element} {defaults : List (String × Expr)} {name : String} :
    name ∈ (e.withDefaults defaults).params ↔ name ∈ e.params ∨ name ∈ defaults.map Prod.fst := by
  unfold withDefaults
  dsimp only
  generalize e.params = params
  induction defaults generalizing params with
  | nil => simp
  | cons entry rest ih =>
    rw [List.foldl_cons, ih, Std.ExtTreeMap.mem_insertIfNew, List.map_cons, List.mem_cons]
    simp only [Std.LawfulEqCmp.compare_eq_iff_eq]
    constructor
    · rintro ((h | h) | h)
      · exact .inr (.inl h.symm)
      · exact .inl h
      · exact .inr (.inr h)
    · rintro (h | h | h)
      · exact .inl (.inr h)
      · exact .inl (.inl h.symm)
      · exact .inr h

/-! ## Binding -/

/-- The element with another binding and other parameters. -/
def rebound (e : Element) (binding : Binding) (params : NameMap Expr) : Element :=
  { e with binding, params }

end Element

/-- What binding an element may result in: an element that differs in binding and parameters, with
findings that are all errors, and without findings bound, to a primitive model only rightly. -/
structure Bound.Fits (b : Bound) (e : Element) : Prop where
  rebound : ∃ binding params, b.element = e.rebound binding params
  errors : ∀ f ∈ b.findings, f.isError = true
  bound : b.findings = [] → b.element.isUnresolved = false
  stamped : b.findings = [] → ∀ p, b.element.primitive? = some p → b.element.Stamped p

namespace Element

variable {e : Element} {s : Surroundings} {defs : Forest} {p : Primitive}

/-- A problem with the severity of an error is an error of an element. -/
theorem isError_finding (e : Element) {problem : Problem} (h : problem.severity = .error) :
    (e.finding problem).isError = true := by
  show (problem.severity == .error) = true
  rw [h]
  rfl

/-- An element that is refused with an error stays as it is. -/
theorem fits_refused (e : Element) {problem : Problem} (h : problem.severity = .error) :
    Bound.Fits ⟨e, [e.finding problem]⟩ e where
  rebound := ⟨e.binding, e.params, rfl⟩
  errors := by
    intro f hf
    rw [List.mem_singleton.1 hf]
    exact e.isError_finding h
  bound := fun hnil => absurd hnil (List.cons_ne_nil _ _)
  stamped := fun hnil => absurd hnil (List.cons_ne_nil _ _)

/-- What is found wrong with the nodes and parameters of an instance is an error. -/
theorem isError_of_mem_instanceFindings {proto : Definition} {f : Finding}
    (h : f ∈ e.instanceFindings proto) : f.isError = true := by
  unfold instanceFindings at h
  rcases List.mem_append.1 h with h | h
  · split at h
    · exact absurd h List.not_mem_nil
    · rw [List.mem_singleton.1 h]
      exact e.isError_finding rfl
  · obtain ⟨name, -, rfl⟩ := List.mem_map.1 h
    exact e.isError_finding rfl

/-- What is found wrong with the parameters of an element is an error. -/
theorem isError_of_mem_paramFindings {f : Finding} (h : f ∈ e.paramFindings p) :
    f.isError = true := by
  obtain ⟨⟨name, value⟩, -, hf⟩ := List.mem_filterMap.1 h
  dsimp only at hf
  split at hf
  · rw [← Option.some.inj hf]
    exact e.isError_finding rfl
  · split at hf
    · rw [← Option.some.inj hf]
      exact e.isError_finding rfl
    · exact absurd hf (by simp)

/-- A parameter that a primitive model has is found by its own name. -/
theorem name_of_param? {name : String} {spec : ParamSpec} (h : p.param? name = some spec) :
    spec.name = name := by
  unfold Primitive.param? at h
  have hname := List.find?_some h
  exact eq_of_beq hname

/-- A parameter of the model is one of its description. -/
theorem mem_paramNames_of_isSome_param? {name : String} (h : (p.param? name).isSome = true) :
    name ∈ p.spec.params.map ParamSpec.name := by
  obtain ⟨spec, hspec⟩ := Option.isSome_iff_exists.1 h
  rw [← name_of_param? hspec]
  exact List.mem_map_of_mem (List.mem_of_find?_eq_some hspec)

/-- Without findings an element only sets parameters of the model. -/
theorem isSome_param?_of_paramFindings_eq_nil (h : e.paramFindings p = []) {name : String}
    (hname : name ∈ e.params) : (p.param? name).isSome = true := by
  rw [Std.ExtTreeMap.mem_iff_isSome_getElem?] at hname
  obtain ⟨value, hvalue⟩ := Option.isSome_iff_exists.1 hname
  have hentry := List.filterMap_eq_nil_iff.1 h (name, value)
    (Std.ExtTreeMap.mem_toList_iff_getElem?_eq_some.2 hvalue)
  dsimp only at hentry
  cases hparam : p.param? name with
  | some spec => rfl
  | none =>
    rw [hparam] at hentry
    exact absurd hentry (by simp)

/-- If nothing is found wrong with its parameters, an element has none but those of its primitive
model. -/
theorem mem_paramNames_of_paramFindings_eq_nil (h : e.paramFindings p = []) {name : String}
    (hname : name ∈ e.params) : name ∈ p.spec.params.map ParamSpec.name :=
  mem_paramNames_of_isSome_param? (isSome_param?_of_paramFindings_eq_nil h hname)

/-- A model card adds no parameters but those of its primitive model. -/
theorem mem_params_withCard {card : ModelCard} {name : String}
    (h : name ∈ (e.withCard card p).params) :
    name ∈ e.params ∨ name ∈ p.spec.params.map ParamSpec.name := by
  rcases mem_params_withDefaults.1 h with h | h
  · exact .inl h
  · obtain ⟨entry, hentry, rfl⟩ := List.mem_map.1 h
    exact .inr (mem_paramNames_of_isSome_param? (List.mem_filter.1 hentry).2)

/-- Binding an instance to a sub-circuit fits it, whatever its parameters are. -/
theorem fits_bindPrototype (e : Element) (params : NameMap Expr) (key : PrototypeKey)
    (proto : Definition) : ((e.rebound e.binding params).bindPrototype key proto).Fits e where
  rebound := ⟨.prototype key, params, rfl⟩
  errors := fun _ hf => isError_of_mem_instanceFindings hf
  bound := fun _ => rfl
  stamped := fun _ p hp => absurd hp (by simp [bindPrototype, primitive?])

/-- Binding to a primitive model changes the binding and the parameters only. -/
theorem rebound_bindPrimitive (e : Element) (params : NameMap Expr) :
    ∃ binding params', ((e.rebound e.binding params).bindPrimitive s defs p).element =
      e.rebound binding params' := by
  unfold bindPrimitive
  split
  · exact ⟨_, _, rfl⟩
  · split
    · exact ⟨e.binding, params, rfl⟩
    · exact ⟨_, _, rfl⟩

/-- What is found wrong in binding to a primitive model is an error. -/
theorem isError_of_mem_bindPrimitive {f : Finding} (h : f ∈ (e.bindPrimitive s defs p).findings) :
    f.isError = true := by
  unfold bindPrimitive at h
  split at h
  · exact absurd h List.not_mem_nil
  · split at h
    · rw [List.mem_singleton.1 h]
      exact e.isError_finding rfl
    · exact isError_of_mem_instanceFindings h

/-- If nothing is found wrong, the element is bound to the primitive model. -/
theorem bound_bindPrimitive (h : (e.bindPrimitive s defs p).findings = []) :
    (e.bindPrimitive s defs p).element.isUnresolved = false := by
  unfold bindPrimitive at h ⊢
  split at h
  · rfl
  · split at h
    · exact absurd h (List.cons_ne_nil _ _)
    · rfl

/-- An element that sets only parameters of a primitive model is bound to it rightly. -/
theorem stamped_bindPrimitive (hunbound : e.primitive? = none)
    (haccepts : e.device.accepts p = true)
    (hlegal : ∀ name ∈ e.params, name ∈ p.spec.params.map ParamSpec.name) {q : Primitive}
    (h : (e.bindPrimitive s defs p).element.primitive? = some q) :
    (e.bindPrimitive s defs p).element.Stamped q := by
  unfold bindPrimitive at h ⊢
  split at h
  · rename_i hstamp
    change some p = some q at h
    obtain rfl := Option.some.inj h
    refine ⟨?_, haccepts, ?_⟩
    · show p.spec.expansion.isNone = true
      rw [hstamp]
      rfl
    · intro name
      refine mem_params_withDefaults.trans ?_
      rw [List.map_map]
      exact ⟨fun hname => hname.elim (hlegal name) id, .inr⟩
  · -- a model that stands for a sub-circuit leaves the element unbound or makes it an instance
    split at h
    · change e.primitive? = some q at h
      rw [hunbound] at h
      exact absurd h (by simp)
    · exact absurd h (by simp [bindPrototype, primitive?])

/-- An unbound element fits when it is bound to a primitive model, with or without a named one. -/
theorem fits_bindModel (hunbound : e.primitive? = none) (card : Option ModelCard) :
    (e.bindModel s defs p card).Fits e := by
  unfold bindModel
  split
  · rename_i haccepts
    -- a named model fills in parameters before the element is bound to its base
    obtain ⟨params, hfilled, hnames⟩ : ∃ params,
        (card.map fun c => e.withCard c p).getD e = e.rebound e.binding params ∧
        ∀ name ∈ params, name ∈ e.params ∨ name ∈ p.spec.params.map ParamSpec.name := by
      cases card with
      | none => exact ⟨e.params, rfl, fun name hname => .inl hname⟩
      | some card => exact ⟨(e.withCard card p).params, rfl, fun name => mem_params_withCard⟩
    dsimp only
    rw [hfilled]
    refine ⟨rebound_bindPrimitive e params, ?_, ?_, ?_⟩
    · intro f hf
      exact (List.mem_append.1 hf).elim isError_of_mem_paramFindings isError_of_mem_bindPrimitive
    · intro hnil
      exact bound_bindPrimitive (List.append_eq_nil_iff.1 hnil).2
    · intro hnil q hq
      have hlegal := (List.append_eq_nil_iff.1 hnil).1
      refine stamped_bindPrimitive (e := e.rebound e.binding params) hunbound haccepts
        (fun name hname => ?_) hq
      exact (hnames name hname).elim (mem_paramNames_of_paramFindings_eq_nil hlegal) id
  · exact e.fits_refused rfl

/-- The name of the element is looked up among sub-circuits: the element stands on the line of an
instance, or its name is no model. -/
def NamesCircuit (e : Element) (s : Surroundings) (defs : Forest) (owner : Definition) : Prop :=
  e.device = .subcircuit ∨
    (Primitive.ofName? e.modelName = none ∧ s.findModel? defs owner e.modelName = none)

/-- The ways in which an element is bound: its name is looked up among sub-circuits, or it is that
of a primitive model, or of a named one with a base. -/
inductive BoundBy (e : Element) (s : Surroundings) (defs : Forest) (owner : Definition) :
    Bound → Prop
  | circuit {key : PrototypeKey} {proto : Definition} (hnames : e.NamesCircuit s defs owner)
      (hfound : s.findSubcircuit? defs owner.path e.modelName = some (key, proto)) :
      BoundBy e s defs owner (e.bindPrototype key proto)
  | unknownCircuit (hdevice : e.device = .subcircuit)
      (hfound : s.findSubcircuit? defs owner.path e.modelName = none) :
      BoundBy e s defs owner ⟨e, [e.finding (.unknownSubcircuit e.refDes e.modelName)]⟩
  | unknownModel (hname : Primitive.ofName? e.modelName = none)
      (hcard : s.findModel? defs owner e.modelName = none)
      (hfound : s.findSubcircuit? defs owner.path e.modelName = none) :
      BoundBy e s defs owner ⟨e, [e.finding (.unknownModel e.refDes e.modelName)]⟩
  | primitive {p : Primitive} (hdevice : e.device ≠ .subcircuit)
      (hname : Primitive.ofName? e.modelName = some p) :
      BoundBy e s defs owner (e.bindModel s defs p none)
  | card {card : ModelCard} {p : Primitive} (hdevice : e.device ≠ .subcircuit)
      (hname : Primitive.ofName? e.modelName = none)
      (hcard : s.findModel? defs owner e.modelName = some card) (hbase : card.base? = some p) :
      BoundBy e s defs owner (e.bindModel s defs p (some card))
  | unknownBase {card : ModelCard} (hcard : s.findModel? defs owner e.modelName = some card)
      (hbase : card.base? = none) :
      BoundBy e s defs owner ⟨e, [e.finding (.unknownModelBase card.name card.base)]⟩

/-- An element is bound in one of these ways. -/
theorem boundBy_bind (e : Element) (s : Surroundings) (defs : Forest) (owner : Definition) :
    e.BoundBy s defs owner (e.bind s defs owner) := by
  unfold bind
  split
  · rename_i hdevice
    unfold bindInstance
    split
    · exact .circuit (.inl hdevice) ‹_›
    · exact .unknownCircuit hdevice ‹_›
  · rename_i hdevice
    split
    · exact .primitive hdevice ‹_›
    · rename_i hname
      split
      · split
        · exact .card hdevice hname ‹_› ‹_›
        · exact .unknownBase ‹_› ‹_›
      · rename_i hcard
        split
        · exact .circuit (.inr ⟨hname, hcard⟩) ‹_›
        · exact .unknownModel hname hcard ‹_›

/-- Binding an element that is not bound to a primitive model fits it. -/
theorem fits_bind (hunbound : e.primitive? = none) (owner : Definition) :
    (e.bind s defs owner).Fits e := by
  have hbound := e.boundBy_bind s defs owner
  generalize e.bind s defs owner = b at hbound ⊢
  cases hbound with
  | circuit _ _ => exact fits_bindPrototype e e.params _ _
  | primitive _ _ | card _ _ _ _ => exact fits_bindModel hunbound _
  | unknownCircuit _ _ | unknownModel _ _ _ | unknownBase _ _ => exact e.fits_refused rfl

/-- An element that waits for its binding is bound to no primitive model. -/
theorem primitive?_eq_none_of_isUnresolved (h : e.isUnresolved = true) : e.primitive? = none := by
  unfold isUnresolved at h
  unfold primitive?
  split at h
  · rename_i name heq
    rw [heq]
  · exact absurd h (by simp)

end Element

namespace Definition

/-- What instances of a definition are checked against: its nodes and its formal parameters. -/
def interface (d : Definition) : List String × NameMap Expr := (d.nodes, d.formals)

variable {d : Definition} {s : Surroundings} {defs : Forest} {e : Element}

/-- Binding an element of a definition changes its binding and its parameters only. -/
theorem rebound_bindOne (d : Definition) (s : Surroundings) (defs : Forest) (e : Element) :
    ∃ binding params, (d.bindOne s defs e).element = e.rebound binding params := by
  unfold bindOne
  split
  · rename_i h
    exact (Element.fits_bind (Element.primitive?_eq_none_of_isUnresolved h) d).rebound
  · exact ⟨e.binding, e.params, rfl⟩

/-- What is found wrong in binding an element is an error. -/
theorem isError_of_mem_bindOne {f : Finding} (h : f ∈ (d.bindOne s defs e).findings) :
    f.isError = true := by
  unfold bindOne at h
  split at h
  · rename_i hunresolved
    have hnone := Element.primitive?_eq_none_of_isUnresolved hunresolved
    exact (Element.fits_bind hnone d).errors f h
  · exact absurd h List.not_mem_nil

/-- If nothing is found wrong, the element is bound. -/
theorem bound_bindOne (h : (d.bindOne s defs e).findings = []) :
    (d.bindOne s defs e).element.isUnresolved = false := by
  unfold bindOne at h ⊢
  split at h
  · rename_i hunresolved
    have hnone := Element.primitive?_eq_none_of_isUnresolved hunresolved
    rw [if_pos hunresolved]
    exact (Element.fits_bind hnone d).bound h
  · rename_i hresolved
    rw [if_neg hresolved]
    exact Bool.eq_false_iff.2 hresolved

/-- Without findings a sound element stays sound. -/
theorem sound_bindOne (he : e.Sound) (h : (d.bindOne s defs e).findings = []) :
    (d.bindOne s defs e).element.Sound := by
  obtain ⟨binding, params, hrebound⟩ := rebound_bindOne d s defs e
  have hshaped : (d.bindOne s defs e).element.Shaped := by
    rw [hrebound]
    exact he.shaped.congr rfl rfl rfl
  refine ⟨hshaped, ?_⟩
  unfold bindOne at h ⊢
  split at h
  · rename_i hunresolved
    have hnone := Element.primitive?_eq_none_of_isUnresolved hunresolved
    rw [if_pos hunresolved]
    exact (Element.fits_bind hnone d).stamped h
  · rename_i hresolved
    rw [if_neg hresolved]
    exact he.stamped

/-- The definition after resolution among other definitions. -/
def resolved (d : Definition) (s : Surroundings) (defs : Forest) : Definition :=
  { d with elements := (d.resolve s defs).1, errors := d.errors + errorCount (d.resolve s defs).2 }

/-- The errors found in a definition include those found in an element. -/
theorem findings_bindOne_eq_nil (he : e ∈ d.elements.values)
    (h : ∀ f ∈ (d.resolve s defs).2, f.isError = false) : (d.bindOne s defs e).findings = [] := by
  refine List.eq_nil_iff_forall_not_mem.2 fun f hf => ?_
  have hmem : f ∈ (d.resolve s defs).2 :=
    List.mem_append_right _ (List.mem_flatMap_of_mem he hf)
  have herror := isError_of_mem_bindOne hf
  rw [h f hmem] at herror
  exact absurd herror (by simp)

/-- The elements of a resolved definition are those of the definition, bound. -/
theorem mem_values_resolved {e' : Element} :
    e' ∈ (d.resolved s defs).elements.values ↔
      ∃ e ∈ d.elements.values, (d.bindOne s defs e).element = e' := by
  have hmap : (d.resolved s defs).elements =
      d.elements.map fun _ e => (d.bindOne s defs e).element := rfl
  rw [NameMap.mem_values, hmap]
  constructor
  · rintro ⟨name, hname⟩
    rw [Std.ExtTreeMap.getElem?_map] at hname
    obtain ⟨e, he, rfl⟩ := Option.map_eq_some_iff.1 hname
    exact ⟨e, NameMap.mem_values.2 ⟨name, he⟩, rfl⟩
  · rintro ⟨e, he, rfl⟩
    obtain ⟨name, hname⟩ := NameMap.mem_values.1 he
    exact ⟨name, by rw [Std.ExtTreeMap.getElem?_map, hname]; rfl⟩

/-- A definition that has no errors when it has been resolved had none before, and nothing that is
found in it is one. -/
theorem errors_of_resolved (h : (d.resolved s defs).errors = 0) :
    d.errors = 0 ∧ ∀ f ∈ (d.resolve s defs).2, f.isError = false := by
  have hsum : d.errors + errorCount (d.resolve s defs).2 = 0 := h
  obtain ⟨hbefore, hnew⟩ := Nat.add_eq_zero_iff.1 hsum
  exact ⟨hbefore, isError_eq_false_of_errorCount_eq_zero hnew⟩

/-- Resolution leaves every element under its own name. -/
theorem keyed_resolved (h : Keyed d.elements) : Keyed (d.resolved s defs).elements := by
  refine h.map fun e => ?_
  obtain ⟨binding, params, hrebound⟩ := rebound_bindOne d s defs e
  rw [hrebound]
  rfl

end Definition

/-- A named model that is found belongs to the definition itself, to one at hand or to a library. -/
theorem Surroundings.mem_models_of_findModel? {s : Surroundings} {defs : Forest}
    {owner : Definition} {name : String} {card : ModelCard}
    (h : s.findModel? defs owner name = some card) :
    card ∈ owner.models.values ∨
      (∃ (scope : String) (d : Definition), defs[scope]? = some d ∧ card ∈ d.models.values) ∨
      card ∈ s.user.models.values ∨ card ∈ s.builtin.models.values := by
  simp only [findModel?, Option.or_eq_some_iff] at h
  rcases h with h | ⟨-, h | ⟨-, h | ⟨-, h⟩⟩⟩
  · exact .inl (NameMap.mem_values.2 ⟨name, h⟩)
  · obtain ⟨scope, -, hscope⟩ := List.exists_of_findSome?_eq_some h
    obtain ⟨d, hd, hcard⟩ := Option.bind_eq_some_iff.1 hscope
    exact .inr (.inl ⟨scope, d, hd, NameMap.mem_values.2 ⟨name, hcard⟩⟩)
  · exact .inr (.inr (.inl (NameMap.mem_values.2 ⟨name, h⟩)))
  · exact .inr (.inr (.inr (NameMap.mem_values.2 ⟨name, h⟩)))

/-! ## Forests -/

namespace Forest

variable {s : Surroundings}

/-- Resolving a definition of the forest leaves those at other paths alone. -/
theorem getElem?_resolveAt_of_ne {state : Forest × List Finding} {path other : String}
    (h : other ≠ path) : (resolveAt s state path).1[other]? = state.1[other]? := by
  unfold resolveAt
  split
  · rfl
  · have hne : compare path other ≠ .eq := by
      rw [ne_eq, Std.LawfulEqCmp.compare_eq_iff_eq]
      exact fun heq => h heq.symm
    dsimp only
    rw [Std.ExtTreeMap.getElem?_insert, if_neg hne]

/-- Resolving a definition of the forest replaces it and adds what is wrong with it. -/
theorem resolveAt_of_getElem? {state : Forest × List Finding} {path : String} {d : Definition}
    (h : state.1[path]? = some d) :
    resolveAt s state path =
      (state.1.insert path (d.resolved s state.1), state.2 ++ (d.resolve s state.1).2) := by
  unfold resolveAt
  rw [h]
  rfl

/-- Both forests have definitions at the same paths, with the same nodes and formal parameters. -/
def SameInterfaces (forest defs : Forest) : Prop :=
  ∀ path : String,
    (defs[path]?).map Definition.interface = (forest[path]?).map Definition.interface

/-- Resolving a definition of the forest keeps whatever resolution keeps of it. -/
theorem map_resolveAt {α : Type} {view : Definition → α}
    (hview : ∀ (d : Definition) (defs : Forest), view (d.resolved s defs) = view d)
    (state : Forest × List Finding) (path other : String) :
    ((resolveAt s state path).1[other]?).map view = (state.1[other]?).map view := by
  by_cases heq : other = path
  · subst heq
    cases h : state.1[other]? with
    | none =>
      unfold resolveAt
      rw [h]
      exact congrArg _ h
    | some d =>
      rw [resolveAt_of_getElem? h]
      dsimp only
      rw [Std.ExtTreeMap.getElem?_insert_self]
      exact congrArg some (hview d state.1)
  · rw [getElem?_resolveAt_of_ne heq]

/-- Resolving definitions one after another keeps whatever resolution keeps of each of them. -/
theorem map_foldl_resolveAt {α : Type} {view : Definition → α}
    (hview : ∀ (d : Definition) (defs : Forest), view (d.resolved s defs) = view d)
    (paths : List String) (state : Forest × List Finding) (other : String) :
    ((paths.foldl (resolveAt s) state).1[other]?).map view = (state.1[other]?).map view := by
  induction paths generalizing state with
  | nil => rfl
  | cons path rest ih =>
    exact (ih (resolveAt s state path)).trans (map_resolveAt hview state path other)

/-- Resolving a definition of the forest changes no interface. -/
theorem sameInterfaces_resolveAt (state : Forest × List Finding) (path : String) :
    SameInterfaces state.1 (resolveAt s state path).1 :=
  map_resolveAt (fun _ _ => rfl) state path

/-- Resolving definitions keeps the nodes and formal parameters of all of them. -/
theorem sameInterfaces_foldl_resolveAt (paths : List String) (state : Forest × List Finding) :
    SameInterfaces state.1 (paths.foldl (resolveAt s) state).1 :=
  map_foldl_resolveAt (fun _ _ => rfl) paths state

/-- Resolving a definition takes back no finding. -/
theorem findings_subset_resolveAt {state : Forest × List Finding} {path : String} :
    state.2 ⊆ (resolveAt s state path).2 := by
  unfold resolveAt
  split
  · exact fun f hf => hf
  · exact List.subset_append_left _ _

/-- Resolving definitions one after another takes back no finding. -/
theorem findings_subset_foldl_resolveAt (paths : List String) (state : Forest × List Finding) :
    state.2 ⊆ (paths.foldl (resolveAt s) state).2 := by
  induction paths generalizing state with
  | nil => exact fun f hf => hf
  | cons path rest ih =>
    exact List.Subset.trans findings_subset_resolveAt (ih (resolveAt s state path))

/-- Paths that do not occur in a row of resolutions keep their definitions. -/
theorem getElem?_foldl_resolveAt_of_not_mem {paths : List String} {path : String}
    (h : path ∉ paths) (state : Forest × List Finding) :
    (paths.foldl (resolveAt s) state).1[path]? = state.1[path]? := by
  induction paths generalizing state with
  | nil => rfl
  | cons first rest ih =>
    rw [List.foldl_cons, ih fun hmem => h (List.mem_cons_of_mem first hmem)]
    exact getElem?_resolveAt_of_ne fun heq => h (heq ▸ List.mem_cons_self)

/-- A row of resolutions takes every definition once. -/
theorem foldl_resolveAt_spec {paths : List String} (hnodup : paths.Nodup)
    {path : String} (hpath : path ∈ paths) (state : Forest × List Finding) {d : Definition}
    (h : state.1[path]? = some d) :
    ∃ defs, (paths.foldl (resolveAt s) state).1[path]? = some (d.resolved s defs) ∧
      (d.resolve s defs).2 ⊆ (paths.foldl (resolveAt s) state).2 ∧
      SameInterfaces state.1 defs := by
  induction paths generalizing state with
  | nil => exact absurd hpath List.not_mem_nil
  | cons first rest ih =>
    obtain ⟨hfirst, hrest⟩ := List.nodup_cons.1 hnodup
    rw [List.foldl_cons]
    by_cases heq : path = first
    · -- the definition is resolved here and left alone afterwards
      subst heq
      refine ⟨state.1, ?_, ?_, fun _ => rfl⟩
      · rw [getElem?_foldl_resolveAt_of_not_mem hfirst, resolveAt_of_getElem? h]
        exact Std.ExtTreeMap.getElem?_insert_self
      · refine fun f hf => findings_subset_foldl_resolveAt rest _ ?_
        rw [resolveAt_of_getElem? h]
        exact List.mem_append_right _ hf
    · obtain ⟨defs, hget, hsub, hsame⟩ := ih hrest ((List.mem_cons.1 hpath).resolve_left heq) _
        ((getElem?_resolveAt_of_ne heq).trans h)
      exact ⟨defs, hget, hsub,
        fun other => (hsame other).trans (sameInterfaces_resolveAt state first other)⟩

/-- A forest has one definition at a path. -/
theorem nodup_keys (forest : Forest) : forest.keys.Nodup := by
  rw [← Std.ExtTreeMap.map_fst_toList_eq_keys]
  exact NameMap.nodup_map_fst_toList forest

/-- A definition of a forest stands at its path after resolution, resolved among definitions with
the interfaces of the forest, and what was found wrong with it is among the findings. -/
theorem exists_resolved {forest : Forest} {path : String} {d : Definition}
    (h : forest[path]? = some d) :
    ∃ defs, (forest.resolve s).1[path]? = some (d.resolved s defs) ∧
      (d.resolve s defs).2 ⊆ (forest.resolve s).2 ∧ forest.SameInterfaces defs := by
  have hmem : path ∈ forest.keys := by
    rw [Std.ExtTreeMap.mem_keys, Std.ExtTreeMap.mem_iff_isSome_getElem?, h]
    rfl
  exact foldl_resolveAt_spec (nodup_keys forest) hmem (forest, []) h

/-- What stands at a path after resolution is what stood there before, resolved among definitions
with the interfaces of the forest, and what was found wrong with it is among the findings. -/
theorem resolve_spec {forest : Forest} {path : String} {d : Definition}
    (h : (forest.resolve s).1[path]? = some d) :
    ∃ d₀ defs, forest[path]? = some d₀ ∧ d = d₀.resolved s defs ∧
      (d₀.resolve s defs).2 ⊆ (forest.resolve s).2 ∧ forest.SameInterfaces defs := by
  cases hbefore : forest[path]? with
  | none =>
    have hnot : path ∉ forest.keys := by
      rw [Std.ExtTreeMap.mem_keys, Std.ExtTreeMap.mem_iff_isSome_getElem?, hbefore]
      simp
    have hsame := getElem?_foldl_resolveAt_of_not_mem (s := s) hnot (forest, [])
    change (forest.resolve s).1[path]? = forest[path]? at hsame
    rw [hsame, hbefore] at h
    exact absurd h (by simp)
  | some d₀ =>
    obtain ⟨defs, hget, hsub, hsame⟩ := exists_resolved (s := s) hbefore
    rw [hget] at h
    exact ⟨d₀, defs, rfl, (Option.some.inj h).symm, hsub, hsame⟩

/-- What stands at a path after resolution is what stood there before, resolved when some other
definitions of the forest had been resolved already. -/
theorem exists_resolved_behind {forest : Forest} {path : String} {d : Definition}
    (h : (forest.resolve s).1[path]? = some d) :
    ∃ (d₀ : Definition) (paths : List String), forest[path]? = some d₀ ∧ path ∉ paths ∧
      d = d₀.resolved s (paths.foldl (resolveAt s) (forest, [])).1 ∧
      (d₀.resolve s (paths.foldl (resolveAt s) (forest, [])).1).2 ⊆ (forest.resolve s).2 := by
  obtain ⟨d₀, -, hd₀, -⟩ := resolve_spec h
  have hmem : path ∈ forest.keys := by
    rw [Std.ExtTreeMap.mem_keys, Std.ExtTreeMap.mem_iff_isSome_getElem?, hd₀]
    rfl
  obtain ⟨before, behind, hkeys⟩ := List.append_of_mem hmem
  have hnodup := nodup_keys forest
  rw [hkeys, List.nodup_append] at hnodup
  obtain ⟨-, hbehind, hapart⟩ := hnodup
  have hbefore : path ∉ before := fun hin => hapart path hin path List.mem_cons_self rfl
  have hat : (before.foldl (resolveAt s) (forest, [])).1[path]? = some d₀ := by
    rw [getElem?_foldl_resolveAt_of_not_mem hbefore]
    exact hd₀
  refine ⟨d₀, before, hd₀, hbefore, ?_⟩
  unfold resolve at h ⊢
  rw [hkeys, List.foldl_append, List.foldl_cons] at h ⊢
  rw [getElem?_foldl_resolveAt_of_not_mem (List.nodup_cons.1 hbehind).1, resolveAt_of_getElem? hat]
    at h
  refine ⟨?_, fun f hf => findings_subset_foldl_resolveAt behind _ ?_⟩
  · dsimp only at h
    rw [Std.ExtTreeMap.getElem?_insert_self] at h
    exact (Option.some.inj h).symm
  · rw [resolveAt_of_getElem? hat]
    exact List.mem_append_right _ hf

/-- If no error has been counted in a definition by the end of resolution, its elements are
bound. -/
theorem bound_of_errors_eq_zero {forest : Forest} {path : String} {d : Definition}
    (hd : (forest.resolve s).1[path]? = some d) (h : d.errors = 0) {e : Element}
    (he : e ∈ d.elements.values) : e.isUnresolved = false := by
  obtain ⟨d₀, defs, -, rfl, -⟩ := resolve_spec hd
  obtain ⟨e₀, he₀, rfl⟩ := Definition.mem_values_resolved.1 he
  exact Definition.bound_bindOne
    (Definition.findings_bindOne_eq_nil he₀ (Definition.errors_of_resolved h).2)

/-- After a resolution without errors every element is bound. -/
theorem bound_of_errorCount_eq_zero {forest : Forest} (h : errorCount (forest.resolve s).2 = 0)
    {path : String} {d : Definition} (hd : (forest.resolve s).1[path]? = some d) {e : Element}
    (he : e ∈ d.elements.values) : e.isUnresolved = false := by
  obtain ⟨d₀, defs, -, rfl, hsub, -⟩ := resolve_spec hd
  obtain ⟨e₀, he₀, rfl⟩ := Definition.mem_values_resolved.1 he
  refine Definition.bound_bindOne (Definition.findings_bindOne_eq_nil he₀ fun f hf => ?_)
  exact isError_eq_false_of_errorCount_eq_zero h f (hsub hf)

end Forest

end FlatNet
