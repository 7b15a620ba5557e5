import FlatNet.Proofs.Expansion.Limits
import FlatNet.Proofs.Expansion.Recorded

/-!
# What flattening does not find

Flattening reports an element that is bound to nothing, and an instance whose sub-circuit is not
there.  Whatever it takes from its queue stems from a definition that the netlist uses, so it only
misses what such a definition asks for.  If nothing at all is found wrong, the whole tree of the
netlist has been expanded, and everything that is asked for is there.
-/

set_option autoImplicit false

namespace FlatNet

/-- The finding says that a model or a sub-circuit is not known. -/
def Finding.isMissing (f : Finding) : Bool :=
  match f.problem with
  | .unknownModel _ _ => true
  | .unknownSubcircuit _ _ => true
  | _ => false

namespace Expansion

/-- A definition that the netlist uses has an instance of the sub-circuit. -/
def Setting.Asks (s : Setting) (root : Definition) (key : PrototypeKey) : Prop :=
  ∃ d, s.Uses root d ∧ ∃ e ∈ d.elements.values, e.prototype? = some key

variable {s : Setting} {root : Definition} {p : Progress} {v : Visit} {a last : Work}
  {visits : List Visit} {o : Occurrence} {e : Element} {key : PrototypeKey}

/-! ## The tree of a netlist -/

/-- What stands in the tree of a netlist stems from a definition that it uses. -/
theorem Setting.Place.stems (h : s.Place root o) : s.Stems root o.outer := by
  induction h with
  | top htop =>
    obtain ⟨e, he, rfl⟩ := List.mem_map.1 htop
    exact ⟨root, .root, e, he, .refl e⟩
  | @inside o c _ hc ih =>
    unfold Setting.inside at hc
    split at hc
    · exact absurd hc List.not_mem_nil
    · rename_i i hi
      obtain ⟨copy, hcopy, rfl⟩ := List.mem_map.1 hc
      have hmem := (Instance.exists_eq_copy_of_mem_copies hcopy).1
      exact ⟨i.proto, ih.uses hi, copy.1, hmem, Instance.like_of_mem_copies hcopy⟩

/-- Every element of a definition that the netlist uses stands in its tree. -/
theorem Setting.Uses.exists_place {d : Definition} (hd : s.Uses root d)
    (he : e ∈ d.elements.values) : ∃ o, s.Place root o ∧ o.outer.Like e := by
  induction hd generalizing e with
  | root => exact ⟨⟨[], e, e⟩, .top (List.mem_map_of_mem he), .refl e⟩
  | inner _ he₁ hi₁ ih =>
    obtain ⟨o, ho, hlike⟩ := ih he₁
    have ho₁ := Setting.instance?_of_like hlike.symm hi₁
    obtain ⟨c, hc, rfl⟩ := Instance.exists_copy (i := ⟨o.outer, _⟩) s.globals he
    refine ⟨⟨o.path, c.1, c.2⟩, .inside ho ?_, Instance.like_of_mem_copies hc⟩
    rw [Setting.inside_of_instance? ho₁]
    exact List.mem_map_of_mem hc

/-- A place among others that have leaves is a leaf, or an instance with leaves inside it. -/
theorem Expands.of_mem {os leaves : List Occurrence} (h : Expands s os leaves) (ho : o ∈ os) :
    (∃ q, o.outer.primitive? = some q) ∨
      ∃ i below, s.instance? o.outer = some i ∧ Expands s (s.inside o) below := by
  induction h with
  | nil => exact absurd ho List.not_mem_nil
  | leaf hleaf _ ih =>
    rcases List.mem_cons.1 ho with rfl | ho
    · exact .inl ⟨_, hleaf⟩
    · exact ih ho
  | inst hinst hinside _ _ ih =>
    rcases List.mem_cons.1 ho with rfl | ho
    · exact .inr ⟨_, _, hinst, hinside⟩
    · exact ih ho

/-- If the netlist has leaves, so has every place in its tree. -/
theorem Expands.of_place {leaves : List Occurrence} (h : Expands s (tops root) leaves)
    (ho : s.Place root o) :
    (∃ q, o.outer.primitive? = some q) ∨
      ∃ i below, s.instance? o.outer = some i ∧ Expands s (s.inside o) below := by
  induction ho with
  | top htop => exact h.of_mem htop
  | @inside o c _ hc ih =>
    rcases ih with ⟨q, hq⟩ | ⟨i, below, -, hinside⟩
    · have hnone : s.inside o = [] := by
        unfold Setting.inside Setting.instance?
        rw [prototype?_eq_none_of_primitive? hq]
        rfl
      rw [hnone] at hc
      exact absurd hc List.not_mem_nil
    · exact hinside.of_mem hc

/-- If the netlist has leaves, every sub-circuit that is asked for is there. -/
theorem Expands.exists_prototype {leaves : List Occurrence} (h : Expands s (tops root) leaves)
    (hasks : s.Asks root key) : ∃ proto, s.prototype? key = some proto := by
  obtain ⟨d, hd, e, he, hkey⟩ := hasks
  obtain ⟨o, ho, hlike⟩ := hd.exists_place he
  rw [← hlike.prototype] at hkey
  rcases h.of_place ho with ⟨q, hq⟩ | ⟨i, -, hi, -⟩
  · rw [prototype?_eq_none_of_primitive? hq] at hkey
    exact absurd hkey (by simp)
  · obtain ⟨-, key', hkey', hproto⟩ := Setting.instance?_eq_some_iff.1 hi
    obtain rfl := Option.some.inj (hkey.symm.trans hkey')
    exact ⟨i.proto, hproto⟩

/-! ## What a run reports missing -/

/-- A definition of an instance that has been expanded has an element that is bound to nothing. -/
def Visit.Unbound (v : Visit) : Prop :=
  ∃ proto, v.fate = .expanded proto ∧ ∃ e ∈ proto.elements.values, e.isUnresolved = true

/-- When copies are put into the circuit, only those that are bound to nothing are missed. -/
theorem missing_addCopies {i : Instance} {cs : List (Element × Element)} {f : Finding}
    (hf : f ∈ (addCopies i cs p).findings) (hmissing : f.isMissing = true) :
    f ∈ p.findings ∨ ∃ c ∈ cs, c.2.isUnresolved = true := by
  revert hf
  refine addCopies_keeps (Q := fun q => f ∈ q.findings →
    f ∈ p.findings ∨ ∃ c ∈ cs, c.2.isUnresolved = true) (fun c hc p' q hjoins hp hf => ?_) .inl
  cases hjoins with
  | unbound hbinding =>
    refine .inr ⟨c, hc, ?_⟩
    unfold Element.isUnresolved
    rw [hbinding]
  | taken _ _ =>
    rcases Array.mem_push.1 hf with hf | rfl
    · exact hp hf
    · exact absurd hmissing (by simp [Finding.isMissing, Finding.usual])
  | inserted _ _ => exact hp hf

/-- A sub-circuit that is reported missing has been before, or is that of the instance, or a copy is
unbound. -/
theorem missing_act {f : Finding} (hf : f ∈ (v.act s p).findings) (hmissing : f.isMissing = true) :
    f ∈ p.findings ∨ v.finding? s = some f ∨ v.Unbound := by
  unfold Visit.act at hf
  unfold Visit.finding?
  cases hfate : v.fate with
  | expanded proto =>
    rw [hfate] at hf
    dsimp only at hf
    rw [expandInstance_eq] at hf
    rcases missing_addCopies hf hmissing with hold | ⟨c, hc, hunbound⟩
    · exact .inl hold
    · obtain ⟨hmem, m, hcopy⟩ := Instance.exists_eq_copy_of_mem_copies hc
      refine .inr (.inr ⟨proto, hfate, c.1, hmem, ?_⟩)
      rw [hcopy] at hunbound
      exact hunbound
  | _ =>
    rw [hfate] at hf
    rcases Array.mem_push.1 hf with hold | rfl
    · exact .inl hold
    · exact .inr (.inl rfl)

/-- What a run misses is the sub-circuit of an instance that it has taken from its queue, or an
element of such a sub-circuit is bound to nothing. -/
theorem Runs.missing (h : Runs s a visits last) {f : Finding} (hf : f ∈ last.progress.findings)
    (hmissing : f.isMissing = true) :
    f ∈ a.progress.findings ∨ ∃ v ∈ visits, v.finding? s = some f ∨ v.Unbound := by
  induction h with
  | stop _ => exact .inl hf
  | step hstep _ ih =>
    cases hstep with
    | skip _ _ => exact ih hf
    | @visit p q name depth queue v _ _ hact =>
      rcases ih hf with hold | ⟨u, hu, hcause⟩
      · change f ∈ q.findings at hold
        rw [hact] at hold
        rcases missing_act hold hmissing with hold | hcause
        · exact .inl hold
        · exact .inr ⟨v, List.mem_cons_self, hcause⟩
      · exact .inr ⟨u, List.mem_cons_of_mem v hu, hcause⟩

end Expansion

namespace Workspace

open Expansion

variable {w : Workspace} {key : PrototypeKey}

/-- A definition that the netlist uses asks for a sub-circuit that is not there. -/
def Lacks (w : Workspace) (key : PrototypeKey) : Prop :=
  w.expansionSetting.Asks w.netlist key ∧ w.expansionSetting.prototype? key = none

/-- If all elements that the netlist uses are bound, flattening reports nothing missing but
sub-circuits that are asked for and are not there. -/
theorem lacks_of_isMissing (hkeyed : Keyed w.netlist.elements)
    (hbound : ∀ d, w.expansionSetting.Uses w.netlist d →
      ∀ e ∈ d.elements.values, e.isUnresolved = false)
    {f : Finding} (hf : f ∈ w.expansionFindings) (hmissing : f.isMissing = true) :
    ∃ refDes key, f.problem = .unknownSubcircuit refDes key.path ∧ w.Lacks key := by
  obtain ⟨visits, last, hruns⟩ := exists_runs w.expansionSetting (Work.initial w.netlist)
  rw [(flatten_of_runs hruns).2, Array.mem_toList_iff] at hf
  have hnone : f ∉ (Work.initial w.netlist).progress.findings := Array.not_mem_empty f
  obtain ⟨v, hv, hcause⟩ := (hruns.missing hf hmissing).resolve_left hnone
  obtain ⟨p, name, hvisit⟩ := hruns.visit? v hv
  obtain ⟨-, hkey, -, hfate⟩ := visit?_eq_some_iff.1 hvisit
  obtain ⟨o, ho, houter, -⟩ := hruns.standsAt (tagged_initial hkeyed) v hv
  have hstems := ho.stems
  rw [houter] at hstems
  rcases hcause with hfinding | ⟨proto, hexpanded, e, he, hunbound⟩
  · unfold Visit.finding? at hfinding
    cases hf : v.fate with
    | unknown =>
      rw [hf] at hfinding
      obtain ⟨d, hd, e, he, hlike⟩ := hstems
      refine ⟨v.element.refDes, v.key, ?_, ⟨d, hd, e, he, ?_⟩,
        prototype?_eq_none_of_fate (hfate.symm.trans hf)⟩
      · exact (congrArg Finding.problem (Option.some.inj hfinding)).symm
      · rw [← hlike.prototype]
        exact hkey
    | expanded proto =>
      rw [hf] at hfinding
      exact absurd hfinding (by simp)
    | _ =>
      rw [hf] at hfinding
      rw [← Option.some.inj hfinding] at hmissing
      exact absurd hmissing (by simp [Finding.isMissing, Finding.usual])
  · have hproto := prototype?_of_fate (hfate.symm.trans hexpanded)
    have huses := hstems.uses (i := ⟨v.element, proto⟩)
      (Setting.instance?_eq_some_iff.2 ⟨rfl, v.key, hkey, hproto⟩)
    rw [hbound proto huses e he] at hunbound
    exact absurd hunbound (by simp)

/-- If nothing at all is found wrong, nothing is lacking. -/
theorem not_lacks_of_quiet {root : Definition} (hroot : w.forest[""]? = some root)
    (hkeyed : Keyed root.elements) (hbound : ∀ e ∈ root.elements.values, e.isUnresolved = false)
    (hquiet : w.expansionFindings = []) (key : PrototypeKey) : ¬w.Lacks key := by
  rintro ⟨hasks, hnone⟩
  have hnetlist : w.netlist = root := by
    unfold netlist
    rw [hroot]
    rfl
  unfold expansionFindings at hquiet
  rw [hroot] at hquiet
  obtain ⟨leaves, -, hleaves, -⟩ := flatten_of_quiet hquiet hkeyed hbound
  rw [hnetlist] at hasks
  obtain ⟨proto, hproto⟩ := hleaves.exists_prototype hasks
  rw [hnone] at hproto
  exact absurd hproto (by simp)

end Workspace

end FlatNet
