import FlatNet.Proofs.NameMap

/-!
# What is expected of elements

An element line is only accepted with as many nodes and references as its device has; `Shaped` says
this of an element.  A sound element that is bound to a primitive model has moreover exactly the
parameters of the model.  Elements are found by their reference designators; `Keyed` says this of a
map of elements, and is kept by whatever inserts elements under their own names, removes some, or
changes them otherwise.
-/

set_option autoImplicit false

namespace FlatNet

namespace Element

/-- The element has as many nodes and references as its device demands. -/
structure Shaped (e : Element) : Prop where
  nodes : ∀ n, e.device.spec.nodes = some n → e.nodes.length = n
  refs : e.refs.length = e.device.spec.refs

/-- The element stands for a primitive model: a stamp that the device accepts, with exactly the
parameters of the model. -/
structure Stamped (e : Element) (p : Primitive) : Prop where
  isStamp : p.isStamp = true
  accepts : e.device.accepts p = true
  params : ∀ name, name ∈ e.params ↔ name ∈ p.spec.params.map ParamSpec.name

/-- If the element is bound to a primitive model, then rightly. -/
structure Sound (e : Element) : Prop where
  shaped : e.Shaped
  stamped : ∀ p, e.primitive? = some p → e.Stamped p

/-- Whether an element is shaped depends on three of its fields. -/
theorem Shaped.congr {e e' : Element} (h : e.Shaped) (hdevice : e'.device = e.device)
    (hnodes : e'.nodes.length = e.nodes.length) (hrefs : e'.refs.length = e.refs.length) :
    e'.Shaped where
  nodes := by
    rw [hdevice, hnodes]
    exact h.nodes
  refs := by
    rw [hdevice, hrefs]
    exact h.refs

/-- An element that is bound to no primitive model is sound if it is shaped. -/
theorem Shaped.sound {e : Element} (h : e.Shaped) (hnone : e.primitive? = none) : e.Sound where
  shaped := h
  stamped := by
    intro p hp
    rw [hnone] at hp
    exact absurd hp (by simp)

/-- Renaming keeps an element sound. -/
theorem Sound.congr {e e' : Element} (h : e.Sound) (hdevice : e'.device = e.device)
    (hbinding : e'.binding = e.binding) (hnodes : e'.nodes.length = e.nodes.length)
    (hrefs : e'.refs.length = e.refs.length)
    (hparams : ∀ name, name ∈ e'.params ↔ name ∈ e.params) : e'.Sound where
  shaped := h.shaped.congr hdevice hnodes hrefs
  stamped := by
    intro p hp
    have hsame : e'.primitive? = e.primitive? := by
      unfold Element.primitive?
      rw [hbinding]
    obtain ⟨hstamp, haccepts, hnames⟩ := h.stamped p (hsame ▸ hp)
    refine ⟨hstamp, ?_, fun name => (hparams name).trans (hnames name)⟩
    rwa [hdevice]

end Element

/-- Every element is found under its own reference designator. -/
def Keyed (elements : NameMap Element) : Prop :=
  ∀ (name : String) (e : Element), elements[name]? = some e → e.refDes = name

namespace Keyed

variable {elements : NameMap Element}

/-- Without elements all are found under their names. -/
theorem empty : Keyed ∅ := by
  intro name e h
  simp at h

/-- An element that is put in under its name is found there, and the others stay where they are. -/
theorem insert (h : Keyed elements) (e : Element) : Keyed (elements.insert e.refDes e) := by
  intro name other hother
  rcases NameMap.getElem?_of_insert hother with ⟨rfl, rfl⟩ | hold
  · rfl
  · exact h name other hold

/-- When an element is taken away the others are found under their names. -/
theorem erase (h : Keyed elements) (name : String) : Keyed (elements.erase name) := by
  intro other e he
  exact h other e (NameMap.getElem?_of_erase he)

/-- Elements that keep their names when they are changed are found under them. -/
theorem map (h : Keyed elements) {change : Element → Element}
    (hname : ∀ e, (change e).refDes = e.refDes) :
    Keyed (elements.map fun _ e => change e) := by
  intro name e he
  rw [Std.ExtTreeMap.getElem?_map] at he
  obtain ⟨before, hbefore, rfl⟩ := Option.map_eq_some_iff.1 he
  rw [hname, h name before hbefore]

/-- An element is found under its own name. -/
theorem getElem?_refDes (h : Keyed elements) {e : Element} (he : e ∈ elements.values) :
    elements[e.refDes]? = some e := by
  obtain ⟨name, hname⟩ := NameMap.mem_values.1 he
  rwa [h name e hname]

end Keyed

end FlatNet
