import FlatNet.Proofs.Resolution

/-!
# Resolution is simultaneous and idempotent

Definitions are resolved one after another inside the forest in which names are looked up.  A
look-up only reads the *outline* of a definition, which is all of it but its elements and the errors
counted in it, and these two are all that resolution changes.  So it makes no difference when a
definition is taken: every element is bound to what its name means in the forest as it was read.

An element that cannot be bound keeps the parameters that a named model has filled in.  They are
filled in only once, so resolving again leaves it as it is; an element that has been bound is not
looked at again.
-/

set_option autoImplicit false

namespace FlatNet

/-- The values of a map under a function are those of the map under the function. -/
theorem NameMap.values_map {α β : Type} (m : NameMap α) (f : α → β) :
    (m.map fun _ value => f value).values = m.values.map f := by
  rw [values_eq_map_toList, values_eq_map_toList, Std.ExtTreeMap.toList_map, List.map_map,
    List.map_map]
  rfl

/-! ## What look-ups read -/

/-- The definition without its elements and without the errors counted in it. -/
def Definition.outline (d : Definition) : Definition := { d with elements := ∅, errors := 0 }

/-- Resolution keeps the outline of a definition. -/
@[simp] theorem Definition.outline_resolved (d : Definition) (s : Surroundings) (defs : Forest) :
    (d.resolved s defs).outline = d.outline := rfl

/-- The forests have definitions with the same outlines at the same paths. -/
def Forest.Alike (defs defs' : Forest) : Prop :=
  ∀ path : String, (defs[path]?).map Definition.outline = (defs'[path]?).map Definition.outline

/-- An instance is checked against the outline of its sub-circuit. -/
theorem Element.bindFound_congr (e : Element) (refused : Bound)
    {found? found?' : Option (PrototypeKey × Definition)} :
    found?.map (Prod.map id Definition.outline) = found?'.map (Prod.map id Definition.outline) →
      (match found? with
        | some (key, proto) => e.bindPrototype key proto
        | none => refused) =
      match found?' with
        | some (key, proto) => e.bindPrototype key proto
        | none => refused := by
  intro h
  rcases found? with _ | ⟨key, proto⟩ <;> rcases found?' with _ | ⟨key', proto'⟩
  · rfl
  · simp at h
  · simp at h
  · obtain ⟨hkey, houtline⟩ := Prod.mk.inj (Option.some.inj h)
    have hproto : e.bindPrototype key proto.outline = e.bindPrototype key' proto'.outline :=
      congrArg₂ e.bindPrototype hkey houtline
    exact hproto

namespace Forest.Alike

variable {defs defs' : Forest} {s : Surroundings}

/-- Forests with the outlines of a third one have the same outlines. -/
theorem trans {defs'' : Forest} (h : defs.Alike defs') (h' : defs'.Alike defs'') :
    defs.Alike defs'' := fun path => (h path).trans (h' path)

/-- In forests with the same outlines a sub-circuit is found at the same place, with the same
outline. -/
theorem findSubcircuit? (h : defs.Alike defs') (scope name : String) :
    (s.findSubcircuit? defs scope name).map (Prod.map id Definition.outline) =
      (s.findSubcircuit? defs' scope name).map (Prod.map id Definition.outline) := by
  have hplace : ∀ (defs : Forest) (path : String),
      ((defs[path]?).map fun d => ((⟨s.store, path⟩ : PrototypeKey), d)).map
          (Prod.map id Definition.outline) =
        ((defs[path]?).map Definition.outline).map fun d => (⟨s.store, path⟩, d) := by
    intro defs path
    cases defs[path]? <;> rfl
  simp only [Surroundings.findSubcircuit?, Option.map_or, List.map_findSome?, Function.comp_def,
    hplace, h _]

/-- In forests with the same outlines the same model is found. -/
theorem findModel? (h : defs.Alike defs') (owner : Definition) (name : String) :
    s.findModel? defs owner name = s.findModel? defs' owner name := by
  have hscope : ∀ scope : String,
      ((defs[scope]?).bind fun d => d.models[name]?) =
        (defs'[scope]?).bind fun d => d.models[name]? := by
    intro scope
    have hmodels := congrArg (fun found? => found?.bind fun d => d.models[name]?) (h scope)
    simpa [Option.bind_map, Function.comp_def, Definition.outline] using hmodels
  simp only [Surroundings.findModel?, hscope]

/-- In forests with the same outlines the circuit of a primitive model has the same outline. -/
theorem findExpansion? (h : defs.Alike defs') (expansion : String) :
    (s.findExpansion? defs expansion).map Definition.outline =
      (s.findExpansion? defs' expansion).map Definition.outline := by
  simp only [Surroundings.findExpansion?, Option.map_or]
  split
  · rw [h expansion]
  · rfl

/-! ## What elements are bound to -/

/-- Binding to a primitive model depends on the outlines of the forest alone. -/
theorem bindPrimitive (h : defs.Alike defs') (e : Element) (p : Primitive) :
    e.bindPrimitive s defs p = e.bindPrimitive s defs' p := by
  unfold Element.bindPrimitive
  split
  · rfl
  · rename_i expansion _
    have hfound := h.findExpansion? (s := s) expansion
    cases hdefs : s.findExpansion? defs expansion with
    | none =>
      rw [hdefs, Option.map_none, eq_comm, Option.map_eq_none_iff] at hfound
      rw [hfound]
    | some circuit =>
      rw [hdefs, Option.map_some, eq_comm, Option.map_eq_some_iff] at hfound
      obtain ⟨circuit', hcircuit', houtline⟩ := hfound
      rw [hcircuit']
      -- instances of the sub-circuit are checked against its outline
      have hbound := congrArg (fun d : Definition =>
        (e.withDefaults d.formals.toList).bindPrototype ⟨.builtin, expansion⟩ d) houtline
      exact hbound.symm

/-- Binding to a named model depends on the outlines of the forest alone. -/
theorem bindModel (h : defs.Alike defs') (e : Element) (p : Primitive) (card : Option ModelCard) :
    e.bindModel s defs p card = e.bindModel s defs' p card := by
  simp only [Element.bindModel, h.bindPrimitive]

/-- Binding an element depends on the outlines of the forest alone. -/
theorem bind (h : defs.Alike defs') (e : Element) (owner : Definition) :
    e.bind s defs owner = e.bind s defs' owner := by
  have hcircuit := h.findSubcircuit? (s := s) owner.path e.modelName
  unfold Element.bind Element.bindInstance
  split
  · exact e.bindFound_congr _ hcircuit
  · split
    · exact h.bindModel e _ none
    · rw [h.findModel? owner e.modelName]
      split
      · split
        · exact h.bindModel e _ _
        · rfl
      · exact e.bindFound_congr _ hcircuit

/-- A definition is resolved alike among definitions with the same outlines. -/
theorem resolve (h : defs.Alike defs') (d : Definition) : d.resolve s defs = d.resolve s defs' := by
  have hone : ∀ e, d.bindOne s defs e = d.bindOne s defs' e := by
    intro e
    simp only [Definition.bindOne, h.bind]
  simp only [Definition.resolve, hone]

/-- Resolving a definition depends on the outlines of the forest alone. -/
theorem resolved (h : defs.Alike defs') (d : Definition) :
    d.resolved s defs = d.resolved s defs' := by
  simp only [Definition.resolved, h.resolve]

end Forest.Alike

namespace Forest

variable {s : Surroundings} {forest : Forest}

/-- Resolution keeps the outlines. -/
theorem alike_foldl_resolveAt (paths : List String) (state : Forest × List Finding) :
    (paths.foldl (resolveAt s) state).1.Alike state.1 :=
  map_foldl_resolveAt (fun _ _ => rfl) paths state

/-! ## All definitions at once -/

/-- The forest with each definition resolved among the definitions of the forest itself, and what
was found wrong with them in the order of their paths. -/
def resolveAtOnce (forest : Forest) (s : Surroundings) : Forest × List Finding :=
  (forest.map fun _ d => d.resolved s forest, forest.values.flatMap fun d => (d.resolve s forest).2)

/-- What is found wrong with the definition at a path, if there is one. -/
def findingsAt (forest : Forest) (s : Surroundings) (path : String) : List Finding :=
  ((forest[path]?).map fun d => (d.resolve s forest).2).getD []

/-- One step of a row of resolutions in a forest like the one at the start. -/
theorem resolveAt_of_alike {state : Forest × List Finding} {path : String}
    (halike : state.1.Alike forest) (hsame : state.1[path]? = forest[path]?) :
    (resolveAt s state path).1[path]? = (forest[path]?).map (·.resolved s forest) ∧
      (resolveAt s state path).2 = state.2 ++ forest.findingsAt s path := by
  unfold findingsAt
  cases hpath : forest[path]? with
  | none =>
    have hnone := hsame.trans hpath
    unfold resolveAt
    rw [hnone]
    exact ⟨hnone, (List.append_nil _).symm⟩
  | some d =>
    rw [resolveAt_of_getElem? (hsame.trans hpath), halike.resolved, halike.resolve]
    exact ⟨Std.ExtTreeMap.getElem?_insert_self, rfl⟩

/-- A row of resolutions in which no path occurs twice resolves the definitions at its paths among
those of the forest at the start. -/
theorem foldl_resolveAt_of_alike {paths : List String} (hnodup : paths.Nodup)
    {state : Forest × List Finding} (halike : state.1.Alike forest)
    (hsame : ∀ path ∈ paths, state.1[path]? = forest[path]?) :
    (∀ path ∈ paths,
      (paths.foldl (resolveAt s) state).1[path]? = (forest[path]?).map (·.resolved s forest)) ∧
    (paths.foldl (resolveAt s) state).2 = state.2 ++ paths.flatMap (forest.findingsAt s) := by
  induction paths generalizing state with
  | nil => exact ⟨fun _ h => absurd h List.not_mem_nil, (List.append_nil _).symm⟩
  | cons first rest ih =>
    obtain ⟨hfirst, hrest⟩ := List.nodup_cons.1 hnodup
    obtain ⟨hplaced, hfound⟩ := resolveAt_of_alike (s := s) halike (hsame first List.mem_cons_self)
    have hstep : (resolveAt s state first).1.Alike forest :=
      (alike_foldl_resolveAt [first] state).trans halike
    have hunmoved : ∀ path ∈ rest, (resolveAt s state first).1[path]? = forest[path]? := by
      intro path hpath
      have hne : path ≠ first := fun heq => hfirst (heq ▸ hpath)
      rw [getElem?_resolveAt_of_ne hne]
      exact hsame path (List.mem_cons_of_mem first hpath)
    obtain ⟨hplacedRest, hfoundRest⟩ := ih hrest hstep hunmoved
    rw [List.foldl_cons]
    refine ⟨fun path hpath => ?_, ?_⟩
    · rcases List.mem_cons.1 hpath with rfl | hpath
      · rw [getElem?_foldl_resolveAt_of_not_mem hfirst, hplaced]
      · exact hplacedRest path hpath
    · rw [hfoundRest, hfound, List.flatMap_cons, List.append_assoc]

/-- In whichever order the definitions are taken, they end up resolved all at once. -/
theorem foldl_resolveAt_of_perm {paths : List String} (hperm : paths.Perm forest.keys) :
    (paths.foldl (resolveAt s) (forest, [])).1 = (forest.resolveAtOnce s).1 := by
  refine Std.ExtTreeMap.ext_getElem? fun path => ?_
  unfold resolveAtOnce
  rw [Std.ExtTreeMap.getElem?_map]
  by_cases hpath : path ∈ paths
  · have hnodup := hperm.nodup_iff.2 (nodup_keys forest)
    exact (foldl_resolveAt_of_alike hnodup (fun _ => rfl) fun _ _ => rfl).1 path hpath
  · have hnone : forest[path]? = none := by
      rw [hperm.mem_iff, Std.ExtTreeMap.mem_keys] at hpath
      exact Std.ExtTreeMap.getElem?_eq_none hpath
    rw [getElem?_foldl_resolveAt_of_not_mem hpath, hnone]
    rfl

/-- What is found wrong at the paths one after another is what is found wrong at once. -/
theorem flatMap_findingsAt (forest : Forest) (s : Surroundings) :
    forest.keys.flatMap (forest.findingsAt s) = (forest.resolveAtOnce s).2 := by
  unfold resolveAtOnce
  rw [← Std.ExtTreeMap.map_fst_toList_eq_keys, NameMap.values_eq_map_toList, List.flatMap_map,
    List.flatMap_map]
  refine List.flatMap_congr fun ⟨path, d⟩ hentry => ?_
  unfold findingsAt
  rw [Std.ExtTreeMap.mem_toList_iff_getElem?_eq_some.1 hentry]
  rfl

/-- Resolving the definitions one after another resolves them all at once. -/
theorem resolve_eq_resolveAtOnce (forest : Forest) (s : Surroundings) :
    forest.resolve s = forest.resolveAtOnce s := by
  refine Prod.ext (foldl_resolveAt_of_perm (List.Perm.refl _)) ?_
  have hfound : (forest.keys.foldl (resolveAt s) (forest, [])).2 =
      [] ++ forest.keys.flatMap (forest.findingsAt s) :=
    (foldl_resolveAt_of_alike (nodup_keys forest) (fun _ => rfl) fun _ _ => rfl).2
  rw [List.nil_append, flatMap_findingsAt] at hfound
  exact hfound

end Forest

/-! ## Resolving again -/

namespace Element

variable {e : Element} {s : Surroundings} {defs : Forest} {owner : Definition} {p : Primitive}
  {card : Option ModelCard}

/-- Defaults that have been filled in are not needed again. -/
theorem withDefaults_withDefaults (e : Element) (defaults : List (String × Expr)) :
    (e.withDefaults defaults).withDefaults defaults = e.withDefaults defaults := by
  unfold withDefaults
  congr 1
  refine Std.ExtTreeMap.ext_getElem? fun name => ?_
  dsimp only
  rw [NameMap.getElem?_foldl_insertIfNew_eq, NameMap.getElem?_foldl_insertIfNew_eq,
    Option.or_assoc, Option.or_self]

/-- The element with what the named model of its line fills in, if the line has one. -/
def filled (e : Element) (card : Option ModelCard) (p : Primitive) : Element :=
  (card.map fun c => e.withCard c p).getD e

/-- A named model fills in its parameters once. -/
theorem filled_filled (e : Element) (card : Option ModelCard) (p : Primitive) :
    (e.filled card p).filled card p = e.filled card p := by
  cases card with
  | none => rfl
  | some c => exact e.withDefaults_withDefaults _

/-- What a named model fills in is no matter of the device. -/
theorem device_filled (e : Element) (card : Option ModelCard) (p : Primitive) :
    (e.filled card p).device = e.device := by
  cases card <;> rfl

/-- An element that cannot be bound to a primitive model stays as it is. -/
theorem element_bindPrimitive_of_isUnresolved
    (h : (e.bindPrimitive s defs p).element.isUnresolved = true) :
    (e.bindPrimitive s defs p).element = e := by
  unfold bindPrimitive at h ⊢
  split at h
  · exact absurd h (by simp [isUnresolved])
  · split at h
    · rfl
    · exact absurd h (by simp [isUnresolved, bindPrototype])

/-- An element that a primitive model leaves unbound is left unbound again, and unchanged. -/
theorem element_bindModel_of_isUnresolved
    (h : (e.bindModel s defs p card).element.isUnresolved = true) :
    ((e.bindModel s defs p card).element.bindModel s defs p card).element =
      (e.bindModel s defs p card).element := by
  by_cases haccepts : e.device.accepts p = true
  · have hbound : ∀ e : Element, e.device.accepts p = true →
        (e.bindModel s defs p card).element =
          ((e.filled card p).bindPrimitive s defs p).element := by
      intro e he
      unfold bindModel
      rw [if_pos he]
      rfl
    rw [hbound e haccepts] at h ⊢
    rw [element_bindPrimitive_of_isUnresolved h, hbound _ (by rwa [device_filled]), filled_filled]
    exact element_bindPrimitive_of_isUnresolved h
  · have hrefused : (e.bindModel s defs p card).element = e := by
      unfold bindModel
      rw [if_neg haccepts]
    rw [hrefused, hrefused]

/-- The line of an element decides how it is bound, whatever it is bound to and sets. -/
theorem bind_cases (e : Element) (s : Surroundings) (defs : Forest) (owner : Definition) :
    (∃ key proto, ∀ binding params, (e.rebound binding params).bind s defs owner =
      (e.rebound binding params).bindPrototype key proto) ∨
    (∃ p card, ∀ binding params, (e.rebound binding params).bind s defs owner =
      (e.rebound binding params).bindModel s defs p card) ∨
    (∀ binding params, ((e.rebound binding params).bind s defs owner).element =
      e.rebound binding params) := by
  have hdevice : ∀ binding params, (e.rebound binding params).device = e.device := fun _ _ => rfl
  have hname : ∀ binding params, (e.rebound binding params).modelName = e.modelName :=
    fun _ _ => rfl
  simp only [bind, bindInstance, hdevice, hname]
  split
  · split
    · exact .inl ⟨_, _, fun _ _ => rfl⟩
    · exact .inr (.inr fun _ _ => rfl)
  · split
    · exact .inr (.inl ⟨_, none, fun _ _ => rfl⟩)
    · split
      · split
        · exact .inr (.inl ⟨_, some _, fun _ _ => rfl⟩)
        · exact .inr (.inr fun _ _ => rfl)
      · split
        · exact .inl ⟨_, _, fun _ _ => rfl⟩
        · exact .inr (.inr fun _ _ => rfl)

/-- An element that is left unbound is left unbound again, and unchanged. -/
theorem element_bind_of_isUnresolved (hunbound : e.isUnresolved = true)
    (h : (e.bind s defs owner).element.isUnresolved = true) :
    ((e.bind s defs owner).element.bind s defs owner).element =
      (e.bind s defs owner).element := by
  have hfits : (e.bind s defs owner).Fits e :=
    fits_bind (primitive?_eq_none_of_isUnresolved hunbound) owner
  obtain ⟨binding, params, hrebound⟩ := hfits.rebound
  rcases bind_cases e s defs owner with ⟨key, proto, hbind⟩ | ⟨p, card, hbind⟩ | hbind
  · have hinstance : e.bind s defs owner = e.bindPrototype key proto := hbind e.binding e.params
    rw [hinstance] at h
    exact absurd h (by simp [isUnresolved, bindPrototype])
  · have hmodel : e.bind s defs owner = e.bindModel s defs p card := hbind e.binding e.params
    rw [hrebound, hbind, ← hrebound, hmodel]
    rw [hmodel] at h
    exact element_bindModel_of_isUnresolved h
  · rw [hrebound, hbind]

end Element

namespace Definition

variable {d : Definition} {s : Surroundings} {defs : Forest}

/-- Binding an element again changes nothing. -/
theorem element_bindOne_bindOne (e : Element) :
    (d.bindOne s defs (d.bindOne s defs e).element).element = (d.bindOne s defs e).element := by
  by_cases hagain : (d.bindOne s defs e).element.isUnresolved = true
  · by_cases hunbound : e.isUnresolved = true
    · have hone : d.bindOne s defs e = e.bind s defs d := if_pos hunbound
      rw [hone] at hagain ⊢
      exact (congrArg Bound.element (if_pos hagain)).trans
        (Element.element_bind_of_isUnresolved hunbound hagain)
    · have hone : d.bindOne s defs e = ⟨e, []⟩ := if_neg hunbound
      rw [hone] at hagain
      exact absurd hagain hunbound
  · have hleft : d.bindOne s defs (d.bindOne s defs e).element =
        ⟨(d.bindOne s defs e).element, []⟩ := if_neg hagain
    rw [hleft]

/-- The elements of a resolved definition stay as they are when it is resolved again. -/
theorem elements_resolved_resolved :
    ((d.resolved s defs).resolved s defs).elements = (d.resolved s defs).elements := by
  refine Std.ExtTreeMap.ext_getElem? fun name => ?_
  have hmap : ∀ d : Definition, (d.resolved s defs).elements =
      d.elements.map fun _ e => (d.bindOne s defs e).element := fun _ => rfl
  rw [hmap (d.resolved s defs), hmap d, Std.ExtTreeMap.getElem?_map, Std.ExtTreeMap.getElem?_map,
    Option.map_map]
  -- the names mean the same, since the owner has changed in its elements and errors only
  exact Option.map_congr fun e _ => element_bindOne_bindOne e

/-- Resolution keeps what the elements refer to, and so what is wrong with it. -/
theorem referenceFindings_resolved :
    (d.resolved s defs).referenceFindings = d.referenceFindings := by
  have hvalues : (d.resolved s defs).elements.values =
      d.elements.values.map fun e => (d.bindOne s defs e).element := NameMap.values_map _ _
  have hcontains : ∀ name, (d.resolved s defs).elements.contains name = d.elements.contains name :=
    fun name => Std.ExtTreeMap.contains_map
  unfold referenceFindings
  rw [hvalues, List.flatMap_map]
  refine List.flatMap_congr fun e _ => ?_
  obtain ⟨binding, params, hrebound⟩ := rebound_bindOne d s defs e
  simp only [hcontains, hrebound]
  rfl

/-- If no error is found in a definition, none is found when it is resolved again. -/
theorem errorCount_resolve_resolved (h : errorCount (d.resolve s defs).2 = 0) :
    errorCount ((d.resolved s defs).resolve s defs).2 = 0 := by
  have herrors := isError_eq_false_of_errorCount_eq_zero h
  have hbound : ∀ e ∈ (d.resolved s defs).elements.values,
      ((d.resolved s defs).bindOne s defs e).findings = [] := by
    intro e he
    obtain ⟨e₀, he₀, rfl⟩ := mem_values_resolved.1 he
    have hresolved := bound_bindOne (findings_bindOne_eq_nil he₀ herrors)
    have hone : ∀ owner : Definition, owner.bindOne s defs (d.bindOne s defs e₀).element =
        ⟨(d.bindOne s defs e₀).element, []⟩ := fun _ => if_neg (Bool.eq_false_iff.1 hresolved)
    rw [hone]
  have hfindings : ((d.resolved s defs).resolve s defs).2 ⊆ (d.resolve s defs).2 := by
    unfold resolve
    rw [List.flatMap_eq_nil_iff.2 hbound, List.append_nil, referenceFindings_resolved]
    exact List.subset_append_left _ _
  exact List.countP_eq_zero.2 fun f hf => Bool.eq_false_iff.1 (herrors f (hfindings hf))

end Definition

namespace Forest

variable {s : Surroundings} {forest : Forest}

/-- Resolution keeps the outlines of all definitions. -/
theorem alike_resolve (forest : Forest) (s : Surroundings) : (forest.resolve s).1.Alike forest :=
  alike_foldl_resolveAt forest.keys (forest, [])

/-- Among the definitions of a resolved forest no element is bound anew. -/
theorem elements_resolve_resolve (path : String) :
    (((forest.resolve s).1.resolve s).1[path]?).map Definition.elements =
      ((forest.resolve s).1[path]?).map Definition.elements := by
  rw [resolve_eq_resolveAtOnce (forest.resolve s).1, resolve_eq_resolveAtOnce forest]
  unfold resolveAtOnce
  simp only [Std.ExtTreeMap.getElem?_map, Option.map_map]
  refine Option.map_congr fun d _ => ?_
  have halike := alike_resolve forest s
  rw [resolve_eq_resolveAtOnce] at halike
  show ((d.resolved s forest).resolved s (forest.resolveAtOnce s).1).elements = _
  rw [halike.resolved]
  exact Definition.elements_resolved_resolved

/-- In a forest that has been resolved without errors none is found. -/
theorem errorCount_resolve_resolve (h : errorCount (forest.resolve s).2 = 0) :
    errorCount ((forest.resolve s).1.resolve s).2 = 0 := by
  have hvalues : (forest.resolve s).1.values = forest.values.map (·.resolved s forest) := by
    rw [resolve_eq_resolveAtOnce]
    exact NameMap.values_map forest _
  have hagain : ((forest.resolve s).1.resolve s).2 =
      forest.values.flatMap fun d => ((d.resolved s forest).resolve s (forest.resolve s).1).2 := by
    rw [resolve_eq_resolveAtOnce (forest.resolve s).1]
    unfold resolveAtOnce
    rw [hvalues, List.flatMap_map]
  have hfirst : ∀ d ∈ forest.values, errorCount (d.resolve s forest).2 = 0 := by
    intro d hd
    rw [resolve_eq_resolveAtOnce] at h
    refine List.countP_eq_zero.2 fun f hf => List.countP_eq_zero.1 h f ?_
    exact List.mem_flatMap_of_mem hd hf
  refine List.countP_eq_zero.2 fun f hf => ?_
  rw [hagain] at hf
  obtain ⟨d, hd, hf⟩ := List.mem_flatMap.1 hf
  rw [(alike_resolve forest s).resolve] at hf
  exact List.countP_eq_zero.1 (Definition.errorCount_resolve_resolved (hfirst d hd)) f hf

/-- Resolution takes all definitions at once, whatever their order: each is resolved among the
definitions as they were read.  Resolving again changes no element, and finds no error if none has
been found. -/
theorem resolve_simultaneous_idempotent (forest : Forest) (s : Surroundings) :
    forest.resolve s = forest.resolveAtOnce s ∧
    (∀ paths : List String, paths.Perm forest.keys →
      (paths.foldl (resolveAt s) (forest, [])).1 = (forest.resolve s).1) ∧
    (∀ path : String,
      (((forest.resolve s).1.resolve s).1[path]?).map Definition.elements =
        ((forest.resolve s).1[path]?).map Definition.elements) ∧
    (errorCount (forest.resolve s).2 = 0 →
      errorCount ((forest.resolve s).1.resolve s).2 = 0) := by
  refine ⟨resolve_eq_resolveAtOnce forest s, fun paths hpaths => ?_, elements_resolve_resolve,
    errorCount_resolve_resolve⟩
  rw [resolve_eq_resolveAtOnce]
  exact foldl_resolveAt_of_perm hpaths

end Forest

end FlatNet
