import FlatNet.Proofs.Resolution
import FlatNet.Proofs.Scope

/-!
# What names mean

A name that is looked up from inside a definition means the sub-circuit of that name in the nearest
scope that has one, or else the one in the user library, or else the one in the built-in library;
named models are looked up in the same way.  `MeansCircuit` and `MeansModel` say this without the
search, and the search finds just what they say.  Resolution changes nothing that they depend on.
-/

set_option autoImplicit false

namespace FlatNet

open Scope (Encloses Nearest findSome?_outward_eq_some_iff findSome?_outward_eq_none_iff)

namespace Forest

/-- The sub-circuit of the name that is defined in the scope. -/
def circuitIn (defs : Forest) (name scope : String) : Option Definition :=
  defs[Scope.child scope name]?

/-- The model of the name that is defined in the scope. -/
def modelIn (defs : Forest) (name scope : String) : Option ModelCard :=
  (defs[scope]?).bind fun d => d.models[name]?

end Forest

namespace Surroundings

variable {s : Surroundings} {defs : Forest} {owner name : String}

/-- The sub-circuit that the name means inside the scope `owner`, and its address. -/
inductive MeansCircuit (s : Surroundings) (defs : Forest) (owner name : String) :
    PrototypeKey → Definition → Prop
  | around {scope : String} {d : Definition} (h : Nearest (defs.circuitIn name) owner scope d) :
      MeansCircuit s defs owner name ⟨s.store, Scope.child scope name⟩ d
  | user {d : Definition}
      (haround : ∀ scope, Encloses scope owner → defs.circuitIn name scope = none)
      (h : s.user.circuits[name]? = some d) : MeansCircuit s defs owner name ⟨.user, name⟩ d
  | builtin {d : Definition}
      (haround : ∀ scope, Encloses scope owner → defs.circuitIn name scope = none)
      (huser : s.user.circuits[name]? = none) (h : s.builtin.circuits[name]? = some d) :
      MeansCircuit s defs owner name ⟨.builtin, name⟩ d

/-- The model that the name means inside the scope `owner`. -/
inductive MeansModel (s : Surroundings) (defs : Forest) (owner name : String) : ModelCard → Prop
  | around {scope : String} {card : ModelCard} (h : Nearest (defs.modelIn name) owner scope card) :
      MeansModel s defs owner name card
  | user {card : ModelCard}
      (haround : ∀ scope, Encloses scope owner → defs.modelIn name scope = none)
      (h : s.user.models[name]? = some card) : MeansModel s defs owner name card
  | builtin {card : ModelCard}
      (haround : ∀ scope, Encloses scope owner → defs.modelIn name scope = none)
      (huser : s.user.models[name]? = none) (h : s.builtin.models[name]? = some card) :
      MeansModel s defs owner name card

/-! ## The search -/

/-- The sub-circuit of the name that is defined in the scope, with its address. -/
def addressedIn (s : Surroundings) (defs : Forest) (name scope : String) :
    Option (PrototypeKey × Definition) :=
  (defs.circuitIn name scope).map fun d => (⟨s.store, Scope.child scope name⟩, d)

/-- The search for a sub-circuit finds what the name means. -/
theorem findSubcircuit?_eq_some_iff {key : PrototypeKey} {d : Definition} :
    s.findSubcircuit? defs owner name = some (key, d) ↔ s.MeansCircuit defs owner name key d := by
  have hsearch : s.findSubcircuit? defs owner name =
      ((Scope.outward owner).findSome? (s.addressedIn defs name)).or
        (((s.user.circuits[name]?).map fun d => (⟨.user, name⟩, d)).or
          ((s.builtin.circuits[name]?).map fun d => (⟨.builtin, name⟩, d))) := rfl
  have hfound : (Scope.outward owner).findSome? (s.addressedIn defs name) = some (key, d) ↔
      ∃ scope d', Nearest (defs.circuitIn name) owner scope d' ∧
        (⟨s.store, Scope.child scope name⟩, d') = (key, d) := by
    rw [findSome?_outward_eq_some_iff]
    exact exists_congr fun scope => Scope.nearest_map_iff
  have hnone : (Scope.outward owner).findSome? (s.addressedIn defs name) = none ↔
      ∀ scope, Encloses scope owner → defs.circuitIn name scope = none := by
    rw [findSome?_outward_eq_none_iff]
    exact forall_congr' fun scope => imp_congr_right fun _ => Option.map_eq_none_iff
  rw [hsearch, Option.or_eq_some_iff, Option.or_eq_some_iff, hfound, hnone, Option.map_eq_some_iff,
    Option.map_eq_some_iff, Option.map_eq_none_iff]
  constructor
  · rintro (⟨scope, d', h, heq⟩ | ⟨haround, ⟨d', h, heq⟩ | ⟨huser, d', h, heq⟩⟩)
    all_goals obtain ⟨rfl, rfl⟩ := Prod.mk.inj heq
    · exact .around h
    · exact .user haround h
    · exact .builtin haround huser h
  · intro h
    cases h with
    | around h => exact .inl ⟨_, _, h, rfl⟩
    | user haround h => exact .inr ⟨haround, .inl ⟨_, h, rfl⟩⟩
    | builtin haround huser h => exact .inr ⟨haround, .inr ⟨huser, _, h, rfl⟩⟩

/-- Inside a definition that stands at its path the search for a model finds what the name means. -/
theorem findModel?_eq_some_iff {d : Definition} (hd : defs[d.path]? = some d) {card : ModelCard} :
    s.findModel? defs d name = some card ↔ s.MeansModel defs d.path name card := by
  have hsearch : s.findModel? defs d name =
      ((Scope.outward d.path).findSome? (defs.modelIn name)).or
        ((s.user.models[name]?).or s.builtin.models[name]?) := by
    have hown : defs.modelIn name d.path = d.models[name]? := by
      unfold Forest.modelIn
      rw [hd]
      rfl
    unfold findModel? Scope.outward
    rw [List.findSome?_cons, hown, List.tail_cons]
    cases d.models[name]? <;> rfl
  rw [hsearch, Option.or_eq_some_iff, Option.or_eq_some_iff, findSome?_outward_eq_some_iff,
    findSome?_outward_eq_none_iff]
  constructor
  · rintro (⟨scope, h⟩ | ⟨haround, h | ⟨huser, h⟩⟩)
    · exact .around h
    · exact .user haround h
    · exact .builtin haround huser h
  · intro h
    cases h with
    | around h => exact .inl ⟨_, h⟩
    | user haround h => exact .inr ⟨haround, .inl h⟩
    | builtin haround huser h => exact .inr ⟨haround, .inr ⟨huser, h⟩⟩

/-- No model is found exactly if the name means none. -/
theorem findModel?_eq_none_iff {d : Definition} (hd : defs[d.path]? = some d) :
    s.findModel? defs d name = none ↔ ∀ card, ¬s.MeansModel defs d.path name card := by
  rw [Option.eq_none_iff_forall_ne_some]
  exact forall_congr' fun card => not_congr (findModel?_eq_some_iff hd)

end Surroundings

/-! ## Forests in which names mean the same -/

/-- What a definition shows of itself when names are looked up: its interface and its models. -/
def Definition.outside (d : Definition) : (List String × NameMap Expr) × NameMap ModelCard :=
  (d.interface, d.models)

/-- The forests have definitions at the same paths, which show the same of themselves. -/
def Forest.Agree (defs defs' : Forest) : Prop :=
  ∀ path : String,
    (defs[path]?).map Definition.outside = (defs'[path]?).map Definition.outside

namespace Forest.Agree

variable {s : Surroundings} {defs defs' : Forest} {owner name path : String}

/-- Forests agree whichever is taken first. -/
theorem symm (h : defs.Agree defs') : defs'.Agree defs := fun path => (h path).symm

/-- Forests that agree with a third one agree. -/
theorem trans {defs'' : Forest} (h : defs.Agree defs') (h' : defs'.Agree defs'') :
    defs.Agree defs'' := fun path => (h path).trans (h' path)

/-- Where one of two forests that agree has a definition, the other has one with the same
interface. -/
theorem exists_getElem? (h : defs.Agree defs') {d : Definition} (hd : defs[path]? = some d) :
    ∃ d', defs'[path]? = some d' ∧ d'.interface = d.interface := by
  have hpath := h path
  rw [hd] at hpath
  obtain ⟨d', hd', houtside⟩ := Option.map_eq_some_iff.1 hpath.symm
  exact ⟨d', hd', congrArg Prod.fst houtside⟩

/-- Where one of two forests that agree has no definition, the other has none. -/
theorem getElem?_eq_none (h : defs.Agree defs') (hnone : defs[path]? = none) :
    defs'[path]? = none := by
  have hpath := h path
  rw [hnone] at hpath
  exact Option.map_eq_none_iff.1 hpath.symm

/-- In forests that agree a scope defines the same models. -/
theorem modelIn_eq (h : defs.Agree defs') (name : String) :
    defs.modelIn name = defs'.modelIn name := by
  funext scope
  have hmodels := congrArg (fun outside? => outside?.bind fun outside => outside.2[name]?) (h scope)
  rwa [Option.bind_map, Option.bind_map] at hmodels

/-- In forests that agree a name means the same model. -/
theorem meansModel (h : defs.Agree defs') {card : ModelCard}
    (hmeans : s.MeansModel defs owner name card) : s.MeansModel defs' owner name card := by
  cases hmeans with
  | around hnearest => exact .around (h.modelIn_eq name ▸ hnearest)
  | user haround huser => exact .user (h.modelIn_eq name ▸ haround) huser
  | builtin haround huser hbuiltin =>
    exact .builtin (h.modelIn_eq name ▸ haround) huser hbuiltin

/-- In forests that agree a name means sub-circuits with one address and one interface. -/
theorem meansCircuit (h : defs.Agree defs') {key : PrototypeKey} {d : Definition}
    (hmeans : s.MeansCircuit defs owner name key d) :
    ∃ d', s.MeansCircuit defs' owner name key d' ∧ d'.interface = d.interface := by
  cases hmeans with
  | around hnearest =>
    obtain ⟨d', hd', hinterface⟩ := h.exists_getElem? hnearest.found
    refine ⟨d', .around ⟨hnearest.encloses, hd', fun other c hother hc => ?_⟩, hinterface⟩
    obtain ⟨c', hc', -⟩ := h.symm.exists_getElem? hc
    exact hnearest.nearest other c' hother hc'
  | user haround huser =>
    exact ⟨d, .user (fun scope hscope => h.getElem?_eq_none (haround scope hscope)) huser, rfl⟩
  | builtin haround huser hbuiltin =>
    exact ⟨d, .builtin (fun scope hscope => h.getElem?_eq_none (haround scope hscope)) huser
      hbuiltin, rfl⟩

end Forest.Agree

/-- While a forest is resolved, names mean the same. -/
theorem Forest.agree_foldl_resolveAt {s : Surroundings} (paths : List String)
    (state : Forest × List Finding) :
    (paths.foldl (resolveAt s) state).1.Agree state.1 :=
  map_foldl_resolveAt (fun _ _ => rfl) paths state

end FlatNet
