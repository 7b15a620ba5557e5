import FlatNet.Proofs.Resolution
import FlatNet.Workspace

/-!
# Regular definitions

A definition is regular if its elements are shaped and found under their names, and if they are
sound as long as no error has been counted in it.  This is what reading a text establishes and what
resolution keeps; a workspace is regular if all definitions in it are, those of the libraries being
without errors.
-/

set_option autoImplicit false

namespace FlatNet

/-- The elements of the definition are found under their names and shaped, and sound if no error
has been counted. -/
structure Definition.Regular (d : Definition) : Prop where
  keyed : Keyed d.elements
  shaped : ∀ e ∈ d.elements.values, e.Shaped
  sound : d.errors = 0 → ∀ e ∈ d.elements.values, e.Sound

/-- All definitions of the forest are regular. -/
def Forest.Regular (forest : Forest) : Prop :=
  ∀ (path : String) (d : Definition), forest[path]? = some d → d.Regular

/-- The sub-circuits of the library are regular, and no error has been counted in them. -/
def Library.Regular (lib : Library) : Prop :=
  ∀ (path : String) (d : Definition), lib.circuits[path]? = some d → d.Regular ∧ d.errors = 0

/-- All definitions that a workspace holds are regular. -/
structure Workspace.Regular (w : Workspace) : Prop where
  forest : Forest.Regular w.forest
  opened : ∀ d ∈ w.opened, d.Regular
  user : w.user.Regular
  builtin : w.builtin.Regular

namespace Definition

/-- A definition without elements is regular. -/
theorem regular_of_elements_eq_empty {d : Definition} (h : d.elements = ∅) : d.Regular where
  keyed := by
    rw [h]
    exact Keyed.empty
  shaped := by
    intro e he
    rw [h] at he
    exact absurd (NameMap.mem_values.1 he) (by simp)
  sound := by
    intro _ e he
    rw [h] at he
    exact absurd (NameMap.mem_values.1 he) (by simp)

/-- Whether a definition is regular depends on its elements, and on its errors being none. -/
theorem Regular.congr {d d' : Definition} (h : d.Regular) (helements : d'.elements = d.elements)
    (herrors : d'.errors = 0 → d.errors = 0) : d'.Regular where
  keyed := by
    rw [helements]
    exact h.keyed
  shaped := by
    rw [helements]
    exact h.shaped
  sound := by
    intro hzero
    rw [helements]
    exact h.sound (herrors hzero)

/-- A definition stays regular with a sound element added. -/
theorem Regular.insert {d : Definition} (h : d.Regular) {e : Element} (he : e.Sound) :
    { d with elements := d.elements.insert e.refDes e }.Regular where
  keyed := h.keyed.insert e
  shaped := by
    intro other hother
    rcases NameMap.mem_values_insert hother with rfl | hother
    · exact he.shaped
    · exact h.shaped other hother
  sound := by
    intro hzero other hother
    rcases NameMap.mem_values_insert hother with rfl | hother
    · exact he
    · exact h.sound hzero other hother

/-- Resolution keeps a definition regular. -/
theorem Regular.resolved {d : Definition} (h : d.Regular) (s : Surroundings) (defs : Forest) :
    (d.resolved s defs).Regular where
  keyed := keyed_resolved h.keyed
  shaped := by
    intro e' he'
    obtain ⟨e, he, rfl⟩ := mem_values_resolved.1 he'
    obtain ⟨binding, params, hrebound⟩ := rebound_bindOne d s defs e
    rw [hrebound]
    exact (h.shaped e he).congr rfl rfl rfl
  sound := by
    intro hzero e' he'
    obtain ⟨e, he, rfl⟩ := mem_values_resolved.1 he'
    obtain ⟨hbefore, hnone⟩ := errors_of_resolved hzero
    exact sound_bindOne (h.sound hbefore e he) (findings_bindOne_eq_nil he hnone)

end Definition

namespace Forest

/-- The empty forest is regular. -/
theorem regular_empty : Forest.Regular ∅ := by
  intro path d hd
  exact absurd hd (by simp)

/-- A forest stays regular with a regular definition added. -/
theorem Regular.insert {forest : Forest} (h : Forest.Regular forest) {d : Definition}
    (hd : d.Regular) (path : String) : Forest.Regular (forest.insert path d) := by
  intro other d' hd'
  rcases NameMap.getElem?_of_insert hd' with ⟨-, rfl⟩ | hold
  · exact hd
  · exact h other d' hold

/-- A part of a regular forest is regular. -/
theorem Regular.filter {forest : Forest} (h : Forest.Regular forest)
    (keep : String → Definition → Bool) : Forest.Regular (forest.filter keep) := by
  intro path d hd
  rw [Std.ExtTreeMap.getElem?_filter'] at hd
  exact h path d (Option.eq_some_of_filter_eq_some hd)

/-- Resolution keeps a forest regular. -/
theorem Regular.resolve {forest : Forest} (h : Forest.Regular forest) (s : Surroundings) :
    Forest.Regular (forest.resolve s).1 := by
  intro path d hd
  obtain ⟨d₀, defs, hd₀, rfl, -⟩ := resolve_spec hd
  exact (h path d₀ hd₀).resolved s defs

end Forest

/-- The empty library is regular. -/
theorem Library.regular_empty : Library.empty.Regular := by
  intro path d hd
  exact absurd hd (by simp [Library.empty])

namespace Workspace

variable {w : Workspace}

/-- A workspace without definitions of its own is as regular as its built-in library. -/
theorem regular_withBuiltin (settings : Settings) {builtin : Library} (h : builtin.Regular) :
    (withBuiltin settings builtin).Regular where
  forest := Forest.regular_empty
  opened := by simp [withBuiltin]
  user := Library.regular_empty
  builtin := h

/-- Forgetting the last compilation keeps the workspace regular. -/
theorem Regular.reset (h : w.Regular) : w.reset.Regular where
  forest := Forest.regular_empty
  opened := by simp [Workspace.reset]
  user := h.user
  builtin := h.builtin

/-- Findings that are recorded keep the workspace regular. -/
theorem Regular.recordAll (h : w.Regular) (fs : List Finding) : (w.recordAll fs).Regular :=
  ⟨h.forest, h.opened, h.user, h.builtin⟩

/-- A library may be exchanged for a regular one. -/
theorem Regular.updateLibrary (h : w.Regular) (kind : LibraryKind) {f : Library → Library}
    (hf : ∀ lib, lib.Regular → (f lib).Regular) : (w.updateLibrary kind f).Regular := by
  cases kind with
  | builtin => exact ⟨h.forest, h.opened, h.user, hf _ h.builtin⟩
  | user => exact ⟨h.forest, h.opened, hf _ h.user, h.builtin⟩

end Workspace

end FlatNet
