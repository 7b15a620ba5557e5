import FlatNet.Circuit.Completion
import FlatNet.Proofs.Expansion.Run
import FlatNet.Proofs.Regular

/-!
# Flat circuits are well formed

Copies of sound elements are sound, and expansion only takes elements out and puts copies in, under
their names.  So the elements stay sound whatever is found wrong on the way: unbound copies and
names that are taken, limits that are passed, sub-circuits that are missing.  In the end the
elements that are bound to primitive models are left.
-/

set_option autoImplicit false

namespace FlatNet

/-- An element as a flat circuit has it: bound to a stamp that its device accepts, with the nodes,
references and parameters that belong to it. -/
structure Element.Flat (e : Element) (p : Primitive) : Prop where
  binding : e.binding = .primitive p
  isStamp : p.isStamp = true
  accepts : e.device.accepts p = true
  nodes : e.device.spec.nodes = some e.nodes.length
  refs : e.refs.length = e.device.spec.refs
  params : ∀ name, name ∈ e.params ↔ name ∈ p.spec.params.map ParamSpec.name

/-- Every element of the circuit is found under its own name and is bound to a stamp, with all that
belongs to it. -/
def Circuit.WellFormed (c : Circuit) : Prop :=
  ∀ (name : String) (e : Element), c.elements[name]? = some e →
    e.refDes = name ∧ ∃ p, e.Flat p

/-- A device that accepts a model has a fixed number of nodes. -/
theorem Device.isSome_nodes_of_accepts {device : Device} {p : Primitive}
    (h : device.accepts p = true) : device.spec.nodes.isSome = true := by
  cases device with
  | subcircuit => exact absurd h (by simp [accepts, spec])
  | _ => rfl

/-- A sound element with a primitive model is as a flat circuit has it. -/
theorem Element.Sound.flat {e : Element} (h : e.Sound) {p : Primitive}
    (hp : e.primitive? = some p) : e.Flat p := by
  obtain ⟨hstamp, haccepts, hparams⟩ := h.stamped p hp
  obtain ⟨n, hn⟩ := Option.isSome_iff_exists.1 (Device.isSome_nodes_of_accepts haccepts)
  have hbinding : e.binding = .primitive p := by
    unfold Element.primitive? at hp
    split at hp
    · rename_i q hq
      rw [hq, Option.some.inj hp]
    · exact absurd hp (by simp)
  refine ⟨hbinding, hstamp, haccepts, ?_, h.shaped.refs, hparams⟩
  rw [hn, h.shaped.nodes n hn]

/-- A copy of a sound element is sound. -/
theorem Instance.sound_copy (i : Instance) (g : Globals) (m : Memo) {e : Element} (h : e.Sound) :
    (i.copy g m e).1.Sound := by
  refine h.congr rfl rfl ?_ ?_ fun name => mem_outsideAll
  · rw [nodes_copy, List.length_map]
  · rw [refs_copy, List.length_map]

namespace Expansion

/-- The elements reached so far are sound and found under their names. -/
structure Progress.Sound (p : Progress) : Prop where
  keyed : Keyed p.circuit.elements
  sound : ∀ e ∈ p.circuit.elements.values, e.Sound

/-- Instances are expanded from sub-circuits with sound elements. -/
def Setting.Sound (s : Setting) : Prop :=
  ∀ (key : PrototypeKey) (proto : Definition), s.prototype? key = some proto →
    ∀ e ∈ proto.elements.values, e.Sound

variable {s : Setting} {p : Progress}

/-- Whether a state is sound depends on its elements. -/
theorem Progress.Sound.congr (h : p.Sound) {q : Progress}
    (helements : q.circuit.elements = p.circuit.elements) : q.Sound := by
  refine ⟨?_, ?_⟩
  · rw [helements]
    exact h.keyed
  · rw [helements]
    exact h.sound

/-- A state stays sound when an element is taken away. -/
theorem Progress.Sound.erase (h : p.Sound) (name : String) : (p.erase name).Sound where
  keyed := h.keyed.erase name
  sound := by
    intro e he
    obtain ⟨key, hkey⟩ := NameMap.mem_values.1 he
    change (p.circuit.elements.erase name)[key]? = some e at hkey
    exact h.sound e (NameMap.mem_values.2 ⟨key, NameMap.getElem?_of_erase hkey⟩)

/-- A state stays sound with a sound element added. -/
theorem Progress.Sound.insert (h : p.Sound) {e : Element} (he : e.Sound) : (p.insert e).Sound where
  keyed := h.keyed.insert e
  sound := by
    intro other hother
    rcases NameMap.mem_values_insert hother with rfl | hother
    · exact he
    · exact h.sound other hother

/-- A state stays sound when sound copies are added. -/
theorem sound_addCopies (h : p.Sound) (i : Instance) {cs : List (Element × Element)}
    (hcs : ∀ c ∈ cs, c.2.Sound) : (addCopies i cs p).Sound := by
  refine addCopies_keeps (fun c hc p q hjoins hp => ?_) h
  cases hjoins with
  | unbound _ | taken _ _ => exact hp.congr rfl
  | inserted _ _ => exact hp.insert (hcs c hc)

/-- Expanding an instance of a sub-circuit with sound elements keeps the state sound. -/
theorem sound_expandInstance (h : p.Sound) (g : Globals) (i : Instance)
    (hproto : ∀ e ∈ i.proto.elements.values, e.Sound) : (expandInstance g i p).Sound := by
  rw [expandInstance_eq]
  have hadded : (addCopies i (i.copies g) p).Sound := by
    refine sound_addCopies h i fun c hc => ?_
    obtain ⟨hmem, m, heq⟩ := Instance.exists_eq_copy_of_mem_copies hc
    rw [heq]
    exact i.sound_copy g m (hproto c.1 hmem)
  exact hadded.congr rfl

/-- Expanding what stands under a name keeps the state sound. -/
theorem sound_expandNamed (hs : s.Sound) (h : p.Sound) (name : String) :
    (expandNamed s p name).Sound := by
  -- the instance is taken out before anything can go wrong
  have hcounted : (p.counted name).Sound := (h.erase name).congr rfl
  have hturn := turn_expandNamed s p name
  generalize expandNamed s p name = q at hturn ⊢
  cases hturn with
  | aborted _ | idle _ => exact h
  | excess _ _ _ _ | unknown _ _ _ _ _ => exact hcounted.congr rfl
  | expanded _ _ _ _ hproto => exact sound_expandInstance hcounted s.globals _ (hs _ _ hproto)

/-- Refusing what stands under a name keeps the state sound. -/
theorem sound_refuseNamed (h : p.Sound) (name : String) : (refuseNamed s p name).Sound := by
  have hrefuses := refuses_refuseNamed s p name
  generalize refuseNamed s p name = q at hrefuses ⊢
  cases hrefuses with
  | idle _ => exact h
  | refused _ _ => exact (h.erase name).congr rfl

/-- Expanding levels of instances keeps the elements sound. -/
theorem sound_expandLevels (hs : s.Sound) (n : Nat) (names : List String) (h : p.Sound) :
    (expandLevels s n names p).Sound :=
  expandLevels_invariant (Q := Progress.Sound) (fun _ name hp => sound_expandNamed hs hp name)
    (fun _ name hp => sound_refuseNamed hp name) (fun _ hp => hp.congr rfl) n names h

/-- A flattened netlist is well formed if its elements and those of the sub-circuits are sound. -/
theorem wellFormed_flatten (hs : s.Sound) {root : Definition} (hkeyed : Keyed root.elements)
    (hroot : ∀ e ∈ root.elements.values, e.Sound) : (flatten s root).1.WellFormed := by
  have hbegin : Progress.Sound ⟨start root, #[], 0, false, #[]⟩ := ⟨hkeyed, hroot⟩
  have hend := sound_expandLevels hs s.maxDepth (instanceNames root.elements) hbegin
  intro name e he
  change ((expandLevels s s.maxDepth (instanceNames root.elements)
    ⟨start root, #[], 0, false, #[]⟩).circuit.elements.filter
      fun _ e => e.primitive?.isSome)[name]? = some e at he
  rw [Std.ExtTreeMap.getElem?_filter'] at he
  obtain ⟨hget, hprimitive⟩ := Option.filter_eq_some_iff.1 he
  obtain ⟨p, hp⟩ := Option.isSome_iff_exists.1 hprimitive
  have hsound := hend.sound e (NameMap.mem_values.2 ⟨name, hget⟩)
  exact ⟨hend.keyed name e hget, p, hsound.flat hp⟩

end Expansion

end FlatNet
