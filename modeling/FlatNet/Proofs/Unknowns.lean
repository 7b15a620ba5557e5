import FlatNet.Proofs.Accepted
import FlatNet.Proofs.Expansion.Paths
import FlatNet.Proofs.Library.Standard

/-!
# Unknowns and sources of a circuit

Completion gives every node but ground an unknown, and every element one for each kind of branch
variable that its model has.  An unknown is named by its kind, an underscore and the name of the
node or the element.  No kind contains an underscore, so the name of an unknown shows its kind at
the first one, and names are distinct whatever the nodes and the elements are called: nodes are
listed once, elements have different names, and a model has no kind twice, nor the kind of a
potential.

A circuit comes out of expansion without any lists, whichever passes its workspace has gone through
and whatever has been found wrong.
-/

set_option autoImplicit false

namespace FlatNet

/-! ## Listings in order -/

/-- The names of a set are listed in order. -/
theorem NameSet.pairwise_toList (names : NameSet) : names.toList.Pairwise (· < ·) :=
  names.ordered_toList.imp fun h => compareOfLessAndEq_eq_lt.1 h

/-- Elements that are found under their names are listed in the order of their names. -/
theorem Keyed.pairwise_values {elements : NameMap Element} (h : Keyed elements) :
    elements.values.Pairwise fun e e' => e.refDes < e'.refDes := by
  rw [NameMap.values_eq_map_toList, List.pairwise_map]
  refine elements.ordered_keys_toList.imp_of_mem fun {a b} ha hb hlt => ?_
  rw [h a.1 a.2 (Std.ExtTreeMap.mem_toList_iff_getElem?_eq_some.1 ha),
    h b.1 b.2 (Std.ExtTreeMap.mem_toList_iff_getElem?_eq_some.1 hb)]
  exact compareOfLessAndEq_eq_lt.1 hlt

/-! ## Devices and models -/

/-- No device is a source of both sorts. -/
theorem Device.isControlledSource_of_isIndependentSource {d : Device}
    (h : d.isIndependentSource = true) : d.isControlledSource = false := by
  cases d <;> simp [isIndependentSource] at h <;> rfl

/-- The kinds of branch variables that the element has. -/
def Element.branches (e : Element) : List String :=
  match e.primitive? with
  | some p => p.spec.branches
  | none => []

/-- A model has no kind of branch variable twice; none of them is the kind of a potential, and none
contains an underscore. -/
theorem Primitive.branches_spec (p : Primitive) :
    p.spec.branches.Nodup ∧ "V" ∉ p.spec.branches ∧ ∀ b ∈ p.spec.branches, '_' ∉ b.toList := by
  cases p <;> decide

/-- The kinds of branch variables of an element are distinct, none of them is that of a potential,
and none contains an underscore. -/
theorem Element.branches_spec (e : Element) :
    e.branches.Nodup ∧ "V" ∉ e.branches ∧ ∀ b ∈ e.branches, '_' ∉ b.toList := by
  unfold branches
  split
  · exact Primitive.branches_spec _
  · simp

/-! ## Names of unknowns -/

/-- The name of the unknown of a kind that belongs to a node or to an element. -/
def unknownName (key : String × String) : String := key.1 ++ "_" ++ key.2

/-- A kind without an underscore is what the name of an unknown begins with. -/
theorem takeWhile_unknownName {key : String × String} (h : '_' ∉ key.1.toList) :
    (unknownName key).toList.takeWhile (· != '_') = key.1.toList := by
  have hkind : ∀ c ∈ key.1.toList, (c != '_') = true := by
    intro c hc
    exact bne_iff_ne.2 fun heq => h (heq ▸ hc)
  simp only [unknownName, String.toList_append, List.append_assoc]
  rw [List.takeWhile_append_of_pos hkind]
  simp

/-- The name of an unknown shows its kind and what it belongs to. -/
theorem unknownName_inj {key key' : String × String} (h : '_' ∉ key.1.toList)
    (h' : '_' ∉ key'.1.toList) (heq : unknownName key = unknownName key') : key = key' := by
  have hkind : key.1 = key'.1 := by
    rw [← String.toList_inj, ← takeWhile_unknownName h, ← takeWhile_unknownName h', heq]
  refine Prod.ext hkind ?_
  have hchars := congrArg String.toList heq
  simp only [unknownName, String.toList_append, hkind] at hchars
  exact String.toList_inj.1 (List.append_cancel_left hchars)

namespace Circuit

variable {c : Circuit}

/-- The unknowns by their kinds and by what they belong to. -/
def unknownKeys (c : Circuit) : List (String × String) :=
  (c.nodes.toList.filter (· != groundNode)).map (Prod.mk "V") ++
    c.elements.values.flatMap fun e => e.branches.map fun branch => (branch, e.refDes)

/-- The unknowns are named by their kinds and by what they belong to. -/
theorem unknownNames_eq (c : Circuit) : c.unknownNames = c.unknownKeys.map unknownName := by
  have hbranches : ∀ e : Element, branchNames e =
      e.branches.map (unknownName ∘ fun branch => (branch, e.refDes)) := by
    intro e
    unfold branchNames Element.branches
    cases e.primitive? <;> rfl
  simp only [unknownNames, unknownKeys, List.map_append, List.map_map, List.map_flatMap,
    ← hbranches]
  rfl

/-- No two unknowns are of one kind and belong to one node or element. -/
theorem nodup_unknownKeys (h : Keyed c.elements) : c.unknownKeys.Nodup := by
  have hnodes : ((c.nodes.toList.filter (· != groundNode)).map (Prod.mk "V")).Nodup :=
    (NameSet.nodup_toList.filter _).map fun _ _ heq => (Prod.mk.inj heq).2
  have hbranches : (c.elements.values.flatMap fun e =>
      e.branches.map fun branch => (branch, e.refDes)).Nodup := by
    refine List.nodup_flatMap.2
      ⟨fun e _ => ?_, (List.pairwise_map.1 h.nodup_refDes).imp fun {e e'} hne => ?_⟩
    · exact e.branches_spec.1.map fun _ _ heq => (Prod.mk.inj heq).1
    · intro key hkey hkey'
      obtain ⟨branch, -, rfl⟩ := List.mem_map.1 hkey
      obtain ⟨branch', -, heq⟩ := List.mem_map.1 hkey'
      exact hne (Prod.mk.inj heq).2.symm
  refine List.nodup_append'.2 ⟨hnodes, hbranches, fun key hkey hkey' => ?_⟩
  obtain ⟨node, -, rfl⟩ := List.mem_map.1 hkey
  obtain ⟨e, -, hbranch⟩ := List.mem_flatMap.1 hkey'
  obtain ⟨branch, hmem, heq⟩ := List.mem_map.1 hbranch
  exact e.branches_spec.2.1 ((Prod.mk.inj heq).1 ▸ hmem)

/-- No kind of unknown contains an underscore. -/
theorem not_mem_kind_of_mem_unknownKeys {key : String × String} (h : key ∈ c.unknownKeys) :
    '_' ∉ key.1.toList := by
  rcases List.mem_append.1 h with h | h
  · obtain ⟨node, -, rfl⟩ := List.mem_map.1 h
    show '_' ∉ "V".toList
    decide
  · obtain ⟨e, -, h⟩ := List.mem_flatMap.1 h
    obtain ⟨branch, hbranch, rfl⟩ := List.mem_map.1 h
    exact e.branches_spec.2.2 branch hbranch

/-- No two unknowns have one name. -/
theorem nodup_unknownNames (h : Keyed c.elements) : c.unknownNames.Nodup := by
  rw [unknownNames_eq]
  refine (nodup_unknownKeys h).map_on fun key hkey key' hkey' heq => ?_
  exact unknownName_inj (not_mem_kind_of_mem_unknownKeys hkey)
    (not_mem_kind_of_mem_unknownKeys hkey') heq

/-! ## Sources -/

/-- The elements of a device are listed once, if all stand under their own names. -/
theorem nodup_elementsWith (h : Keyed c.elements) (property : Device → Bool) :
    (c.elementsWith property).Nodup :=
  h.nodup_refDes.sublist (List.filter_sublist.map _)

/-- The elements that are listed are those whose device has the property, if all are bound to
primitive models. -/
theorem mem_elementsWith (hprimitive : ∀ e ∈ c.elements.values, e.primitive?.isSome = true)
    {property : Device → Bool} {name : String} :
    name ∈ c.elementsWith property ↔
      ∃ e ∈ c.elements.values, e.refDes = name ∧ property e.device = true := by
  simp only [elementsWith, List.mem_map, List.mem_filter, Bool.and_eq_true]
  constructor
  · rintro ⟨e, ⟨he, -, hproperty⟩, rfl⟩
    exact ⟨e, he, rfl, hproperty⟩
  · rintro ⟨e, he, rfl, hproperty⟩
    exact ⟨e, ⟨he, hprimitive e he, hproperty⟩, rfl⟩

/-! ## Completed circuits -/

/-- A circuit that has not been completed: its elements are bound to primitive models and found
under their names, and no source has been listed. -/
structure Fresh (c : Circuit) : Prop where
  keyed : Keyed c.elements
  primitive : ∀ e ∈ c.elements.values, e.primitive?.isSome = true
  independent : c.independentSources = []
  controlled : c.controlledSources = []

/-- The completed circuit `done` has the elements of `c`.  Its unknowns are the potentials of all
nodes but ground, in order, and the branch variables of all elements, in the order of their names;
no two have one name.  Its sources are the elements with the devices of sources, each listed once
and no one as both. -/
structure Listed (c done : Circuit) : Prop where
  elements : done.elements = c.elements
  unknowns : ∃ (nodes : List String) (listed : List Element),
    done.unknowns = nodes.map (fun node => "V_" ++ node) ++
      listed.flatMap (fun e => e.branches.map fun branch => branch ++ "_" ++ e.refDes) ∧
    nodes.Pairwise (· < ·) ∧
    (∀ node, node ∈ nodes ↔ node ≠ groundNode ∧ ∃ e ∈ c.elements.values, node ∈ e.nodes) ∧
    listed.Pairwise (fun e e' => e.refDes < e'.refDes) ∧
    ∀ e, e ∈ listed ↔ ∃ name : String, c.elements[name]? = some e
  distinct : done.unknowns.Nodup
  independent : ∀ name, name ∈ done.independentSources ↔
    ∃ e ∈ c.elements.values, e.refDes = name ∧ e.device.isIndependentSource = true
  controlled : ∀ name, name ∈ done.controlledSources ↔
    ∃ e ∈ c.elements.values, e.refDes = name ∧ e.device.isControlledSource = true
  independentOnce : done.independentSources.Nodup
  controlledOnce : done.controlledSources.Nodup
  apart : done.independentSources.Disjoint done.controlledSources

/-- Completion lists the unknowns and the sources of a circuit with ground. -/
theorem Fresh.listed (h : c.Fresh) (g : Globals)
    (hground : c.connectedNodes.contains groundNode = true) : c.Listed (c.complete g).1 := by
  have hunknowns : (c.complete g).1.unknowns =
      ({ c with nodes := c.connectedNodes } : Circuit).unknownNames := by
    rw [complete_of_ground hground]
    rfl
  have hindependent : (c.complete g).1.independentSources =
      c.elementsWith Device.isIndependentSource := by
    rw [complete_of_ground hground]
    exact congrArg (· ++ c.elementsWith Device.isIndependentSource) h.independent
  have hcontrolled : (c.complete g).1.controlledSources =
      c.elementsWith Device.isControlledSource := by
    rw [complete_of_ground hground]
    exact congrArg (· ++ c.elementsWith Device.isControlledSource) h.controlled
  refine ⟨elements_complete c g, ?_, ?_, ?_, ?_, ?_, ?_, ?_⟩
  · refine ⟨c.connectedNodes.toList.filter (· != groundNode), c.elements.values, ?_,
      (NameSet.pairwise_toList _).filter _, fun node => ?_, h.keyed.pairwise_values,
      fun e => NameMap.mem_values⟩
    · rw [hunknowns, unknownNames_eq]
      simp only [unknownKeys, List.map_append, List.map_map, List.map_flatMap]
      rfl
    · rw [List.mem_filter, bne_iff_ne, and_comm, Std.ExtTreeSet.mem_toList, connectedNodes,
        NameSet.mem_ofList, List.mem_flatMap]
  · rw [hunknowns]
    exact nodup_unknownNames h.keyed
  · intro name
    rw [hindependent]
    exact mem_elementsWith h.primitive
  · intro name
    rw [hcontrolled]
    exact mem_elementsWith h.primitive
  · rw [hindependent]
    exact nodup_elementsWith h.keyed _
  · rw [hcontrolled]
    exact nodup_elementsWith h.keyed _
  · intro name hname hname'
    rw [hindependent, mem_elementsWith h.primitive] at hname
    rw [hcontrolled, mem_elementsWith h.primitive] at hname'
    obtain ⟨e, he, rfl, hdevice⟩ := hname
    obtain ⟨e', he', heq, hdevice'⟩ := hname'
    have hsame : e' = e := by
      have hget := h.keyed.getElem?_refDes he'
      rw [heq, h.keyed.getElem?_refDes he] at hget
      exact (Option.some.inj hget).symm
    rw [hsame, Device.isControlledSource_of_isIndependentSource hdevice] at hdevice'
    exact absurd hdevice' (by simp)

end Circuit

/-! ## Expansion -/

namespace Expansion

variable {s : Setting} {p : Progress}

/-- The elements reached so far are found under their names, and no source has been listed. -/
structure Progress.Unlisted (p : Progress) : Prop where
  keyed : Keyed p.circuit.elements
  independent : p.circuit.independentSources = []
  controlled : p.circuit.controlledSources = []

namespace Progress.Unlisted

/-- Nothing is listed by a finding. -/
theorem report (h : p.Unlisted) (f : Finding) : (p.report f).Unlisted :=
  ⟨h.keyed, h.independent, h.controlled⟩

/-- Nothing is listed when an element is taken away. -/
theorem erase (h : p.Unlisted) (name : String) : (p.erase name).Unlisted :=
  ⟨h.keyed.erase name, h.independent, h.controlled⟩

/-- Nothing is listed when an element is added. -/
theorem insert (h : p.Unlisted) (e : Element) : (p.insert e).Unlisted :=
  ⟨h.keyed.insert e, h.independent, h.controlled⟩

/-- Nothing is listed when copies are added. -/
theorem addCopies (h : p.Unlisted) (i : Instance) (cs : List (Element × Element)) :
    (addCopies i cs p).Unlisted := by
  refine addCopies_keeps (fun c _ p q hjoins hp => ?_) h
  cases hjoins with
  | unbound _ | taken _ _ => exact hp.report _
  | inserted _ _ => exact hp.insert c.2

/-- Nothing is listed when an instance is expanded. -/
theorem expandNamed (h : p.Unlisted) (name : String) : (expandNamed s p name).Unlisted := by
  have hcounted : (p.counted name).Unlisted :=
    ⟨(h.erase name).keyed, h.independent, h.controlled⟩
  have hturn := turn_expandNamed s p name
  generalize Expansion.expandNamed s p name = q at hturn ⊢
  cases hturn with
  | aborted _ | idle _ => exact h
  | excess _ _ _ _ => exact ⟨hcounted.keyed, hcounted.independent, hcounted.controlled⟩
  | unknown _ _ _ _ _ => exact hcounted.report _
  | expanded _ _ _ _ _ =>
    rw [expandInstance_eq]
    obtain ⟨hkeyed, hindependent, hcontrolled⟩ := hcounted.addCopies _ _
    exact ⟨hkeyed, hindependent, hcontrolled⟩

/-- Nothing is listed when an instance is refused. -/
theorem refuseNamed (h : p.Unlisted) (name : String) : (refuseNamed s p name).Unlisted := by
  have hrefuses := refuses_refuseNamed s p name
  generalize Expansion.refuseNamed s p name = q at hrefuses ⊢
  cases hrefuses with
  | idle _ => exact h
  | refused _ _ => exact (h.erase name).report _

end Progress.Unlisted

/-- A netlist whose elements are found under their names is flattened into a circuit that has not
been completed. -/
theorem fresh_flatten (s : Setting) {root : Definition} (h : Keyed root.elements) :
    (flatten s root).1.Fresh := by
  have hend : Progress.Unlisted (expandLevels s s.maxDepth (instanceNames root.elements)
      ⟨start root, #[], 0, false, #[]⟩) :=
    expandLevels_invariant (Q := Progress.Unlisted) (fun _ name hp => hp.expandNamed name)
      (fun _ name hp => hp.refuseNamed name)
      (fun _ hp => ⟨hp.keyed, hp.independent, hp.controlled⟩) _ _ ⟨h, rfl, rfl⟩
  have hleft : ∀ (name : String) (e : Element), (flatten s root).1.elements[name]? = some e →
      (expandLevels s s.maxDepth (instanceNames root.elements)
        ⟨start root, #[], 0, false, #[]⟩).circuit.elements[name]? = some e ∧
        e.primitive?.isSome = true := by
    intro name e he
    change ((expandLevels s s.maxDepth (instanceNames root.elements)
      ⟨start root, #[], 0, false, #[]⟩).circuit.elements.filter
        fun _ e => e.primitive?.isSome)[name]? = some e at he
    rw [Std.ExtTreeMap.getElem?_filter'] at he
    exact Option.filter_eq_some_iff.1 he
  refine ⟨fun name e he => hend.keyed name e (hleft name e he).1, fun e he => ?_,
    hend.independent, hend.controlled⟩
  obtain ⟨name, hname⟩ := NameMap.mem_values.1 he
  exact (hleft name e hname).2

end Expansion

/-! ## Passes in any order -/

namespace Workspace

/-- The workspaces that come about by the public operations and by single passes of the compiler,
in any order. -/
inductive Underway : Workspace → Prop
  | reachable {w : Workspace} (h : w.Reachable) : Underway w
  | withBuiltin (settings : Settings) {w : Workspace} (h : Underway w) :
      Underway (withBuiltin settings w.builtin)
  | compileLibraryText {w : Workspace} (h : Underway w) (disk : Disk) (kind : LibraryKind)
      (label text : String) : Underway (w.compileLibraryText disk kind label text).1
  | compileLibrary {w : Workspace} (h : Underway w) (disk : Disk) (kind : LibraryKind)
      (path : String) : Underway (w.compileLibrary disk kind path).1
  | includeLibrary {w : Workspace} (h : Underway w) (disk : Disk) (kind : LibraryKind)
      (name : String) : Underway (w.includeLibrary disk kind name).1
  | compile {w : Workspace} (h : Underway w) (disk : Disk) (label text : String) :
      Underway (w.compile disk label text).1
  | reset {w : Workspace} (h : Underway w) : Underway w.reset
  | rebuild {w : Workspace} (h : Underway w) (disk : Disk) : Underway (w.rebuild disk)
  | configure {w : Workspace} (h : Underway w) (settings : Settings) :
      Underway { w with settings }
  | readSource {w : Workspace} (h : Underway w) (disk : Disk) (src : Source)
      (path text : String) : Underway (w.readSource disk src path text).1
  | resolve {w : Workspace} (h : Underway w) : Underway w.resolve.1
  | flatten {w : Workspace} (h : Underway w) : Underway w.flatten.1
  | complete {w : Workspace} (h : Underway w) (c : Circuit) : Underway (w.complete c).1

variable {w : Workspace}

/-- The workspaces that come about by operations and single passes are regular. -/
theorem Underway.regular (h : w.Underway) : w.Regular := by
  induction h with
  | reachable h => exact h.regular
  | withBuiltin settings _ ih => exact regular_withBuiltin settings ih.builtin
  | compileLibraryText _ disk kind label text ih => exact ih.compileLibraryText disk kind label text
  | compileLibrary _ disk kind path ih => exact ih.compileLibrary disk kind path
  | includeLibrary _ disk kind name ih => exact ih.includeLibrary disk kind name
  | compile _ disk label text ih => exact ih.compile disk label text
  | reset _ ih => exact ih.reset
  | rebuild _ disk _ => exact regular_rebuild _ disk
  | configure _ settings ih => exact ⟨ih.forest, ih.opened, ih.user, ih.builtin⟩
  | readSource _ disk src path text ih => exact ih.readSource disk src path text
  | resolve _ ih => exact ih.resolve
  | flatten _ ih => exact ih.recordAll _
  | complete _ c ih => exact ih.recordAll _

/-- Whatever netlist has been read, it is flattened into a circuit that has not been completed. -/
theorem Regular.fresh_flatten (h : w.Regular) : w.flatten.2.Fresh := by
  have hfresh : ∀ {c : Circuit} (n : Nat), c.Fresh → ({ c with errors := n } : Circuit).Fresh :=
    fun _ hc => ⟨hc.keyed, hc.primitive, hc.independent, hc.controlled⟩
  unfold flatten
  cases hroot : w.forest[""]? with
  | none =>
    have hnone : ∀ e ∈ Circuit.empty.elements.values, e.primitive?.isSome = true :=
      fun e he => absurd (NameMap.mem_values.1 he) (by simp [Circuit.empty, Circuit.titled])
    exact hfresh _ ⟨Keyed.empty, hnone, rfl, rfl⟩
  | some root => exact hfresh _ (Expansion.fresh_flatten _ (h.forest "" root hroot).keyed)

/-- Whichever passes a workspace has gone through, completion lists the unknowns and the sources of
the circuit that its netlist is flattened into, if an element of it is connected to ground. -/
theorem listed_complete_flatten (h : w.Underway) (v : Workspace)
    (hground : w.flatten.2.connectedNodes.contains groundNode = true) :
    w.flatten.2.Listed (v.complete w.flatten.2).2 :=
  h.regular.fresh_flatten.listed v.globals hground

/-- A netlist with a source between nodes that are called like unknowns. -/
def sourceText : String := "t\nV1 V_0 0 V value=1\nE1 I_V1 0 V_0 0 EZ\nR1 V_0 I_V1 1k\n.end\n"

set_option maxRecDepth 100000 in
/-- The netlist with a source between nodes that are called like unknowns is listed as it should
be. -/
theorem listed_complete_flatten_source :
    (standard.prepare Disk.empty "main.cir" sourceText).Underway ∧
      (standard.prepare Disk.empty "main.cir" sourceText).flatten.2.Listed
        (standard.complete (standard.prepare Disk.empty "main.cir" sourceText).flatten.2).2 := by
  have hunderway : (standard.prepare Disk.empty "main.cir" sourceText).Underway :=
    .resolve (.readSource (.reset (.reachable reachable_standard)) Disk.empty
      ⟨"main.cir", .netlist⟩ "" sourceText)
  have hground : (standard.prepare Disk.empty "main.cir"
      sourceText).flatten.2.connectedNodes.contains groundNode = true :=
    contains_connectedNodes_flatten "V1" groundNode (by decide +kernel) (by decide +kernel)
  exact ⟨hunderway, listed_complete_flatten hunderway standard hground⟩

end Workspace

end FlatNet
