import FlatNet.Proofs.Closure
import FlatNet.Proofs.Soundness

/-!
# Cross-references

Coupled inductors refer to other elements by name.  In each definition it is checked that there are
elements of these names, and when an instance copies its sub-circuit it renames both alike.  So
every reference leads to a place beside the one that it is made at, at any nesting.

It does not always lead to an element of the flat circuit: the place may be an instance, and an
instance is replaced by what is inside it.  `refsClosed_iff` says that nothing else goes wrong.
-/

set_option autoImplicit false

namespace FlatNet

open Expansion

/-- Every name that an element refers to is the name of an element. -/
def Circuit.RefsClosed (c : Circuit) : Prop :=
  ∀ e ∈ c.elements.values, ∀ name ∈ e.refs,
    ∃ target ∈ c.elements.values, target.refDes = name

/-! ## Definitions -/

/-- Every element of the definition is bound, and refers to elements of the definition only. -/
structure Definition.Linked (d : Definition) : Prop where
  bound : ∀ e ∈ d.elements.values, e.isUnresolved = false
  known : ∀ e ∈ d.elements.values, ∀ name ∈ e.refs, d.elements.contains name = true

namespace Definition

variable {s : Surroundings} {defs : Forest} {d : Definition}

/-- A definition that is resolved without errors is linked. -/
theorem linked_resolved (h : ∀ f ∈ (d.resolve s defs).2, f.isError = false) :
    (d.resolved s defs).Linked where
  bound := by
    intro e' he'
    obtain ⟨e, he, rfl⟩ := mem_values_resolved.1 he'
    exact bound_bindOne (findings_bindOne_eq_nil he h)
  known := by
    intro e' he' name hname
    obtain ⟨e, he, rfl⟩ := mem_values_resolved.1 he'
    obtain ⟨binding, params, hrebound⟩ := rebound_bindOne d s defs e
    rw [hrebound] at hname
    obtain ⟨before, hbefore⟩ := NameMap.contains_iff.1 (contains_of_mem_refs h he hname)
    exact NameMap.contains_iff.2
      ⟨_, Std.ExtTreeMap.getElem?_map.trans (congrArg (Option.map _) hbefore)⟩

/-- In a linked definition there is an element for every reference. -/
theorem Linked.exists_target (h : d.Linked) (hkeyed : Keyed d.elements) {e : Element}
    (he : e ∈ d.elements.values) {name : String} (hname : name ∈ e.refs) :
    ∃ target ∈ d.elements.values, target.refDes = name := by
  obtain ⟨target, htarget⟩ := NameMap.contains_iff.1 (h.known e he name hname)
  exact ⟨target, NameMap.mem_values.2 ⟨name, htarget⟩, hkeyed name target htarget⟩

end Definition

/-- A definition without errors is linked when its forest has been resolved. -/
theorem Forest.linked_of_errors_eq_zero {s : Surroundings} {forest : Forest} {path : String}
    {d : Definition} (hd : (forest.resolve s).1[path]? = some d) (h : d.errors = 0) :
    d.Linked := by
  obtain ⟨d₀, defs, -, rfl, -⟩ := resolve_spec hd
  exact Definition.linked_resolved (Definition.errors_of_resolved h).2

/-- What stands in a library is linked. -/
theorem Stock.MadeBy.linked {s : Stock} {ps : List Promotion} (h : s.MadeBy ps)
    {kind : LibraryKind} {path : String} {d : Definition}
    (hd : (s.library kind).circuits[path]? = some d) : d.Linked := by
  obtain ⟨p, -, -, hadds⟩ := h.origin kind path d hd
  exact Forest.linked_of_errors_eq_zero hadds.errors_eq_zero.1 hadds.errors_eq_zero.2

/-! ## Places -/

namespace Expansion

/-- The place refers to the one beside it. -/
structure Occurrence.RefersTo (o target : Occurrence) : Prop where
  beside : target.around = o.around
  named : target.inner.refDes ∈ o.inner.refs

variable {s : Setting} {root : Definition} {o : Occurrence}

/-- A place stands among copies of all elements of one definition. -/
theorem exists_definition_of_mem_places (ho : o ∈ s.places root) :
    ∃ d, (d = root ∨ ∃ key, s.prototype? key = some d) ∧ o.inner ∈ d.elements.values ∧
      ∀ e ∈ d.elements.values, ∃ c ∈ s.places root, c.around = o.around ∧ c.inner = e := by
  rcases Setting.mem_places_iff.1 ho with ⟨e, he, rfl⟩ | ⟨around, haround, i, hinst, c, hc, rfl⟩
  · exact ⟨root, .inl rfl, he, fun e' he' =>
      ⟨⟨[], e', e'⟩, Setting.mem_places_iff.2 (.inl ⟨e', he', rfl⟩), rfl, rfl⟩⟩
  · obtain ⟨-, key, -, hproto⟩ := Setting.instance?_eq_some_iff.1 hinst
    refine ⟨i.proto, .inr ⟨key, hproto⟩, (Instance.exists_eq_copy_of_mem_copies hc).1,
      fun e he => ?_⟩
    obtain ⟨c', hc', rfl⟩ := Instance.exists_copy s.globals he
    exact ⟨⟨around.path, c'.1, c'.2⟩,
      Setting.mem_places_iff.2 (.inr ⟨around, haround, i, hinst, c', hc', rfl⟩), rfl, rfl⟩

/-- Every place stands in the flat circuit as its definition has it, but for its names. -/
theorem Setting.faithful_of_mem_places (ho : o ∈ s.places root) : o.Faithful := by
  rcases List.mem_append.1 ho with htop | hinside
  · exact faithful_of_mem_tops htop
  · obtain ⟨around, haround, hin⟩ := List.mem_flatMap.1 hinside
    exact (Setting.faithful_of_mem_expanded haround).inside hin

/-- The flat references of a place are the flat names of the places that it refers to. -/
theorem Occurrence.RefersTo.flatName_mem_refs {target : Occurrence} (h : o.RefersTo target)
    (ho : o.Faithful) : flatName target.path ∈ o.outer.refs := by
  rw [ho.refs]
  refine List.mem_map.2 ⟨target.inner.refDes, h.named, ?_⟩
  rw [Occurrence.path, h.beside]

end Expansion

/-! ## Flat circuits -/

namespace Workspace

variable {w : Workspace} {ps : List Promotion} {disk : Disk} {label text : String}

section Resolved

variable (hready : w.resolve.1.Ready) (hmade : w.resolve.1.stock.MadeBy ps)

include hready hmade

/-- What the instances of a resolved netlist are expanded from is linked. -/
theorem linked_of_prototype? {key : PrototypeKey} {d : Definition}
    (hd : w.resolve.1.expansionSetting.prototype? key = some d) : d.Linked := by
  by_cases hstore : key.store = .netlist
  · rw [prototype?_eq, hstore] at hd
    exact Forest.linked_of_errors_eq_zero hd
      (errors_eq_zero_of_forestErrors hready.forestErrors hd)
  · obtain ⟨kind, hkind⟩ := exists_library_of_prototype? hstore hd
    exact hmade.linked hkind

/-- A place of a resolved netlist stands among copies of all elements of a linked definition. -/
theorem exists_linked_of_mem_places {o : Occurrence} (ho : o ∈ w.resolve.1.places) :
    ∃ d : Definition, d.Linked ∧ Keyed d.elements ∧ o.inner ∈ d.elements.values ∧
      ∀ e ∈ d.elements.values, ∃ c ∈ w.resolve.1.places, c.around = o.around ∧ c.inner = e := by
  have hroot := hready.forest
  have hzero := errors_eq_zero_of_forestErrors hready.forestErrors hroot
  obtain ⟨d, hd, hinner, hbeside⟩ := exists_definition_of_mem_places ho
  have hlinked : d.Linked ∧ Keyed d.elements := by
    rcases hd with hd | ⟨key, hkey⟩
    · rw [hd]
      exact ⟨Forest.linked_of_errors_eq_zero hroot hzero, (hready.regular.forest _ _ hroot).keyed⟩
    · exact ⟨linked_of_prototype? hready hmade hkey,
        hready.regular.keyed_expansionSetting key d hkey⟩
  exact ⟨d, hlinked.1, hlinked.2, hinner, hbeside⟩

end Resolved

section Accepted

variable (h : w.Reachable) (haccepted : (w.compile disk label text).2.errors = 0) {o : Occurrence}
  (ho : o ∈ (w.prepare disk label text).places)

include h haccepted ho

/-- In an accepted netlist a place stands among copies of all elements of a linked definition. -/
theorem exists_linked_of_accepted :
    ∃ d : Definition, d.Linked ∧ Keyed d.elements ∧ o.inner ∈ d.elements.values ∧
      ∀ e ∈ d.elements.values, ∃ c ∈ (w.prepare disk label text).places,
        c.around = o.around ∧ c.inner = e := by
  obtain ⟨hready, -⟩ := ready_of_accepted h.regular haccepted
  obtain ⟨ps, hps⟩ := h.exists_history
  exact exists_linked_of_mem_places hready (hps.madeBy_readNetlist disk label text) ho

/-- In an accepted netlist every reference leads to a place beside the one that it is made at, and
becomes the flat name of that place. -/
theorem exists_refersTo_of_accepted {name : String} (hname : name ∈ o.outer.refs) :
    ∃ target ∈ (w.prepare disk label text).places, o.RefersTo target ∧
      flatName target.path = name := by
  obtain ⟨d, hlinked, hkeyed, hinner, hbeside⟩ := exists_linked_of_accepted h haccepted ho
  rw [(Setting.faithful_of_mem_places ho).refs] at hname
  obtain ⟨inner, hnamed, rfl⟩ := List.mem_map.1 hname
  obtain ⟨e, he, rfl⟩ := hlinked.exists_target hkeyed hinner hnamed
  obtain ⟨target, htarget, haround, rfl⟩ := hbeside e he
  refine ⟨target, htarget, ⟨haround, hnamed⟩, ?_⟩
  rw [Occurrence.path, haround]

/-- In an accepted netlist a place is a leaf or an instance. -/
theorem isLeaf_eq_not_isInstance_of_accepted : o.isLeaf = !o.isInstance := by
  obtain ⟨d, hlinked, -, hinner, -⟩ := exists_linked_of_accepted h haccepted ho
  refine Occurrence.isLeaf_eq_not_isInstance ?_
  have hbound := hlinked.bound o.inner hinner
  unfold Element.isUnresolved at hbound ⊢
  rwa [(Setting.faithful_of_mem_places ho).binding]

end Accepted

/-- An element of the flat circuit that an accepted netlist refers to is a leaf of that name. -/
theorem exists_leaf_of_refsClosed (h : w.Regular)
    (haccepted : (w.compile disk label text).2.errors = 0)
    (hclosed : (w.compile disk label text).2.RefsClosed) {l : Occurrence}
    (hl : l ∈ (w.prepare disk label text).places) (hleaf : l.isLeaf = true) {name : String}
    (hname : name ∈ l.outer.refs) :
    ∃ l' ∈ (w.prepare disk label text).places, l'.isLeaf = true ∧ flatName l'.path = name := by
  have hmem := NameMap.mem_values.2
    ⟨_, (getElem?_elements_of_accepted h haccepted).2 ⟨l, hl, hleaf, rfl, rfl⟩⟩
  obtain ⟨e, he, rfl⟩ := hclosed l.outer hmem name hname
  obtain ⟨other, hother⟩ := NameMap.mem_values.1 he
  obtain ⟨l', hl', hleaf', -, rfl⟩ := (getElem?_elements_of_accepted h haccepted).1 hother
  exact ⟨l', hl', hleaf', (Setting.faithful_of_mem_places hl').refDes.symm⟩

/-- In an accepted netlist every reference of a place leads to a place beside it, and becomes the
flat name of that place.  The references of the flat circuit lead to its elements exactly if every
instance that a leaf refers to leaves its flat name to some leaf; so they do if leaves refer to
leaves only. -/
theorem refsClosed_iff (h : w.Reachable) (disk : Disk) (label text : String)
    (haccepted : (w.compile disk label text).2.errors = 0) :
    let places := (w.prepare disk label text).places
    (∀ o ∈ places, ∀ name ∈ o.outer.refs, ∃ target ∈ places, o.RefersTo target ∧
        flatName target.path = name) ∧
      ((w.compile disk label text).2.RefsClosed ↔
        ∀ l ∈ places, l.isLeaf = true → ∀ target ∈ places, l.RefersTo target →
          target.isInstance = true →
          ∃ l' ∈ places, l'.isLeaf = true ∧ flatName l'.path = flatName target.path) ∧
      ((∀ l ∈ places, l.isLeaf = true → ∀ target ∈ places, l.RefersTo target →
          target.isLeaf = true) → (w.compile disk label text).2.RefsClosed) := by
  have hleads : ∀ o ∈ (w.prepare disk label text).places, ∀ name ∈ o.outer.refs,
      ∃ target ∈ (w.prepare disk label text).places, o.RefersTo target ∧
        flatName target.path = name :=
    fun _ ho _ hname => exists_refersTo_of_accepted h haccepted ho hname
  have hclosed : (∀ l ∈ (w.prepare disk label text).places, l.isLeaf = true →
      ∀ target ∈ (w.prepare disk label text).places, l.RefersTo target →
        ∃ l' ∈ (w.prepare disk label text).places, l'.isLeaf = true ∧
          flatName l'.path = flatName target.path) → (w.compile disk label text).2.RefsClosed := by
    intro hall e he name hname
    obtain ⟨flat, hflat⟩ := NameMap.mem_values.1 he
    obtain ⟨l, hl, hleaf, -, rfl⟩ := (getElem?_elements_of_accepted h.regular haccepted).1 hflat
    obtain ⟨target, htarget, hrefers, rfl⟩ := hleads l hl name hname
    obtain ⟨l', hl', hleaf', heq⟩ := hall l hl hleaf target htarget hrefers
    have hget := (getElem?_elements_of_accepted h.regular haccepted).2 ⟨l', hl', hleaf', rfl, rfl⟩
    exact ⟨l'.outer, NameMap.mem_values.2 ⟨_, hget⟩,
      (Setting.faithful_of_mem_places hl').refDes.trans heq⟩
  refine ⟨hleads, ⟨fun hrefs l hl hleaf target _ hrefers _ => ?_, fun hall => ?_⟩, fun hall => ?_⟩
  · exact exists_leaf_of_refsClosed h.regular haccepted hrefs hl hleaf
      (hrefers.flatName_mem_refs (Setting.faithful_of_mem_places hl))
  · refine hclosed fun l hl hleaf target htarget hrefers => ?_
    cases hinst : target.isInstance with
    | true => exact hall l hl hleaf target htarget hrefers hinst
    | false =>
      refine ⟨target, htarget, ?_, rfl⟩
      rw [isLeaf_eq_not_isInstance_of_accepted h haccepted htarget, hinst]
      rfl
  · exact hclosed fun l hl hleaf target htarget hrefers =>
      ⟨target, htarget, hall l hl hleaf target htarget hrefers, rfl⟩

/-- A netlist with coupled inductors in a sub-circuit. -/
def coupledText : String :=
  "t\n.subckt P a b\nL1 a 0 1m\nL2 b 0 1m\nK1 L1 L2 0.5\n.ends\nX1 1 2 P\n.end\n"

/-- A netlist in which an inductor is coupled with an instance. -/
def danglingText : String :=
  "t\n.subckt P a b\nR1 a b 1\n.ends\nL1 1 0 1m\nX1 1 0 P\nK1 L1 X1 0.5\n.end\n"

set_option maxRecDepth 100000 in
/-- The netlist of coupled inductors is accepted. -/
theorem accepted_coupled : (standard.compile Disk.empty "main.cir" coupledText).2.errors = 0 := by
  refine errors_compile_eq_zero ?_ ?_ ?_
  · decide +kernel
  · decide +kernel
  · exact contains_connectedNodes_flatten "L1_X1" groundNode (by decide +kernel) (by decide +kernel)

set_option maxRecDepth 100000 in
/-- The netlist with a reference into an instance is accepted. -/
theorem accepted_dangling :
    (standard.compile Disk.empty "main.cir" danglingText).2.errors = 0 := by
  refine errors_compile_eq_zero ?_ ?_ ?_
  · decide +kernel
  · decide +kernel
  · exact contains_connectedNodes_flatten "L1" groundNode (by decide +kernel) (by decide +kernel)

set_option maxRecDepth 100000 in
/-- The coupled inductors of the sub-circuit are elements of the flat circuit. -/
theorem refsClosed_iff_coupled :
    standard.Reachable ∧ (standard.compile Disk.empty "main.cir" coupledText).2.errors = 0 ∧
      (standard.compile Disk.empty "main.cir" coupledText).2.RefsClosed := by
  refine ⟨reachable_standard, accepted_coupled, ?_⟩
  have hall : ((standard.prepare Disk.empty "main.cir" coupledText).places.all fun l =>
      (standard.prepare Disk.empty "main.cir" coupledText).places.all fun target =>
        !(l.isLeaf && l.inner.refs.contains target.inner.refDes) || target.isLeaf) = true := by
    decide +kernel
  obtain ⟨-, -, hclosed⟩ :=
    refsClosed_iff reachable_standard Disk.empty "main.cir" coupledText accepted_coupled
  refine hclosed fun l hl hleaf target htarget hrefers => ?_
  have htest := List.all_eq_true.1 (List.all_eq_true.1 hall l hl) target htarget
  rw [hleaf, List.contains_iff_mem.2 hrefers.named] at htest
  exact htest

set_option maxRecDepth 100000 in
/-- The instance that the inductor is coupled with is no element of the flat circuit. -/
theorem not_refsClosed_dangling :
    standard.Reachable ∧ (standard.compile Disk.empty "main.cir" danglingText).2.errors = 0 ∧
      ¬(standard.compile Disk.empty "main.cir" danglingText).2.RefsClosed := by
  refine ⟨reachable_standard, accepted_dangling, fun hclosed => ?_⟩
  have hrefers : ((standard.prepare Disk.empty "main.cir" danglingText).places.any fun l =>
      l.isLeaf && l.outer.refs.contains "X1") = true := by decide +kernel
  have hnone : ((standard.prepare Disk.empty "main.cir" danglingText).places.all fun l =>
      !l.isLeaf || flatName l.path != "X1") = true := by decide +kernel
  obtain ⟨l, hl, hboth⟩ := List.any_eq_true.1 hrefers
  obtain ⟨hleaf, hname⟩ := Bool.and_eq_true_iff.1 hboth
  obtain ⟨l', hl', hleaf', heq⟩ := exists_leaf_of_refsClosed reachable_standard.regular
    accepted_dangling hclosed hl hleaf (List.contains_iff_mem.1 hname)
  have htest := List.all_eq_true.1 hnone l' hl'
  rw [hleaf', heq] at htest
  exact absurd htest (by decide)

end Workspace

end FlatNet
