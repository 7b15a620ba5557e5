import FlatNet.Proofs.Compilation
import FlatNet.Proofs.Expansion.Leaves
import FlatNet.Proofs.Expansion.Paths
import FlatNet.Proofs.Reading.Netlist

/-!
# Accepted netlists

A netlist that is compiled without errors has been read, resolved and flattened without anything
being found wrong on the way, since whatever is found wrong in these passes is an error.  The
statements here say what is known of such a netlist and of its circuit.
-/

set_option autoImplicit false

namespace FlatNet

open Expansion

namespace Workspace

/-- The workspace in which a netlist has been read and resolved. -/
def prepare (w : Workspace) (disk : Disk) (label text : String) : Workspace :=
  (w.readNetlist disk label text).resolve.1

/-- The instances of the netlist, level by level. -/
def expanded (w : Workspace) : List Occurrence := w.expansionSetting.expanded w.netlist

/-- The places of the netlist, level by level. -/
def places (w : Workspace) : List Occurrence := w.expansionSetting.places w.netlist

/-- A netlist is ready to be completed: its elements are bound, and nothing is found wrong while it
is flattened. -/
structure Ready (w : Workspace) : Prop where
  forest : w.forest[""]? = some w.netlist
  regular : w.Regular
  forestErrors : w.forestErrors = 0
  bound : ∀ e ∈ w.netlist.elements.values, e.isUnresolved = false
  quiet : (Expansion.flatten w.expansionSetting w.netlist).2 = []

/-- A workspace without any library. -/
def bare : Workspace := withBuiltin {} Library.empty

variable {w : Workspace} {disk : Disk} {label text : String}

/-- A test that finds something among the instances of the netlist is passed by one of them. -/
theorem exists_instance_of_any {test : Instance → Bool}
    (h : (w.expanded.any fun o => (w.expansionSetting.instance? o.outer).any test) = true) :
    ∃ o i, o ∈ w.expanded ∧ w.expansionSetting.instance? o.outer = some i ∧ test i = true := by
  obtain ⟨o, ho, hinst⟩ := List.any_eq_true.1 h
  obtain ⟨i, hi, htest⟩ := (Option.any_eq_true _ _).1 hinst
  exact ⟨o, i, ho, hi, htest⟩

/-- A circuit that is compiled without errors has come through all passes. -/
theorem finishNetlist_of_errors_eq_zero {read : Workspace}
    (h : read.finishNetlist.2.errors = 0) :
    read.resolve.1.forestErrors = 0 ∧
      read.finishNetlist.2 =
        (read.resolve.1.flatten.2.complete read.resolve.1.globals).1 := by
  unfold finishNetlist at h ⊢
  split at h
  · rename_i hread
    exact absurd h (Nat.pos_iff_ne_zero.1 hread)
  · rename_i hread
    rw [if_neg hread]
    split at h
    · rename_i hresolved
      exact absurd h (Nat.pos_iff_ne_zero.1 hresolved)
    · rename_i hresolved
      rw [if_neg hresolved]
      exact ⟨Nat.eq_zero_of_not_pos hresolved, rfl⟩

/-- Finishing a netlist leaves settings, libraries and compiled files alone. -/
theorem finishNetlist_kept (w : Workspace) :
    w.finishNetlist.1.settings = w.settings ∧ w.finishNetlist.1.user = w.user ∧
      w.finishNetlist.1.builtin = w.builtin ∧ w.finishNetlist.1.compiled = w.compiled := by
  unfold finishNetlist
  split
  · exact ⟨rfl, rfl, rfl, rfl⟩
  · split
    · exact ⟨rfl, rfl, rfl, rfl⟩
    · rw [flatten_fst]
      exact ⟨rfl, rfl, rfl, rfl⟩

/-- A resolved netlist whose circuit is completed without errors is ready. -/
theorem ready_of_errors_complete {read : Workspace} (hread : read.Regular)
    (hforest : read.resolve.1.forestErrors = 0)
    (h : (read.resolve.1.flatten.2.complete read.resolve.1.globals).1.errors = 0) :
    read.resolve.1.Ready ∧
      read.resolve.1.flatten.2 =
        (Expansion.flatten read.resolve.1.expansionSetting read.resolve.1.netlist).1 := by
  have hzero : read.resolve.1.flatten.2.errors = 0 :=
    Nat.le_zero.1 (h ▸ Circuit.errors_le_complete _ read.resolve.1.globals)
  cases hroot : read.resolve.1.forest[""]? with
  | none =>
    -- without a netlist nothing is connected to ground
    have hempty : read.resolve.1.flatten.2.elements = ∅ := by
      unfold flatten
      rw [hroot]
      rfl
    exact absurd h (Nat.pos_iff_ne_zero.1 (Circuit.errors_complete_pos _ hempty))
  | some root =>
    have hnetlist : read.resolve.1.netlist = root := by
      unfold netlist
      rw [hroot]
      rfl
    have hflat : read.resolve.1.flatten.2 =
        { (Expansion.flatten read.resolve.1.expansionSetting root).1 with
          errors := (Expansion.flatten read.resolve.1.expansionSetting root).1.errors +
            read.resolve.1.forestErrors } := by
      unfold flatten
      rw [hroot]
    rw [hflat] at hzero
    have hcount : errorCount (Expansion.flatten read.resolve.1.expansionSetting root).2 = 0 :=
      (Nat.add_eq_zero_iff.1 hzero).1
    refine ⟨⟨?_, hread.resolve, hforest, ?_, ?_⟩, ?_⟩
    · rw [hnetlist]
      exact hroot
    · intro e he
      rw [hnetlist] at he
      exact Forest.bound_of_errors_eq_zero hroot (errors_eq_zero_of_forestErrors hforest hroot) he
    · rw [hnetlist]
      exact eq_nil_of_errorCount_eq_zero (onlyErrors_flatten _ root) hcount
    · rw [hflat, hnetlist, hforest]
      rfl

/-- A netlist without errors is ready, and its circuit is the flattened one, completed. -/
theorem ready_of_accepted (h : w.Regular) (haccepted : (w.compile disk label text).2.errors = 0) :
    (w.prepare disk label text).Ready ∧
      (w.compile disk label text).2 =
        ((Expansion.flatten (w.prepare disk label text).expansionSetting
          (w.prepare disk label text).netlist).1.complete
            (w.prepare disk label text).globals).1 := by
  have hread : (w.readNetlist disk label text).Regular := h.readNetlist disk label text
  unfold prepare
  rw [compile_eq] at haccepted ⊢
  generalize w.readNetlist disk label text = read at hread haccepted ⊢
  obtain ⟨hforest, heq⟩ := finishNetlist_of_errors_eq_zero haccepted
  rw [heq] at haccepted ⊢
  obtain ⟨hready, hflat⟩ := ready_of_errors_complete hread hforest haccepted
  rw [hflat]
  exact ⟨hready, rfl⟩

/-- In the flat circuit of a netlist without errors ground is connected. -/
theorem connected_of_accepted (h : w.Regular)
    (haccepted : (w.compile disk label text).2.errors = 0) :
    (Expansion.flatten (w.prepare disk label text).expansionSetting
      (w.prepare disk label text).netlist).1.connectedNodes.contains groundNode = true := by
  obtain ⟨-, hcircuit⟩ := ready_of_accepted h haccepted
  rw [hcircuit, Circuit.errors_complete] at haccepted
  by_contra hnot
  rw [if_neg hnot] at haccepted
  exact absurd haccepted (Nat.succ_ne_zero _)

/-- The errors of a flat circuit are those of its expansion and those counted before. -/
theorem errors_flatten (w : Workspace) :
    w.flatten.2.errors = errorCount w.expansionFindings + w.forestErrors := by
  unfold flatten expansionFindings
  cases w.forest[""]? with
  | none => rfl
  | some root => rfl

/-- What expansion makes of the netlist, before instances that are left over are taken out. -/
def expansionRun (w : Workspace) : Progress :=
  expandLevels w.expansionSetting w.expansionSetting.maxDepth
    (instanceNames w.netlist.elements) (begin w.netlist)

/-- A node is connected in the flat circuit if an element with a primitive model is at it when
expansion is over. -/
theorem contains_connectedNodes_flatten {w : Workspace} (name node : String)
    (hforest : w.forest[""]?.isSome = true)
    (h : (w.expansionRun.circuit.elements[name]?).any
      (fun e => e.primitive?.isSome && e.nodes.contains node) = true) :
    w.flatten.2.connectedNodes.contains node = true := by
  obtain ⟨root, hroot⟩ := Option.isSome_iff_exists.1 hforest
  have hnetlist : w.netlist = root := by
    unfold netlist
    rw [hroot]
    rfl
  obtain ⟨e, he, hboth⟩ := (Option.any_eq_true _ _).1 h
  obtain ⟨hprimitive, hnode⟩ := Bool.and_eq_true_iff.1 hboth
  have hflat : w.flatten.2.elements =
      w.expansionRun.circuit.elements.filter fun _ e => e.primitive?.isSome := by
    unfold flatten expansionRun
    rw [hroot, hnetlist]
    rfl
  have hget : w.flatten.2.elements[name]? = some e := by
    rw [hflat, Std.ExtTreeMap.getElem?_filter', he]
    exact Option.filter_some_pos hprimitive
  unfold Circuit.connectedNodes
  rw [Std.ExtTreeSet.contains_iff_mem, NameSet.mem_ofList]
  exact List.mem_flatMap_of_mem (NameMap.mem_values.2 ⟨name, hget⟩) (List.contains_iff_mem.1 hnode)

/-- A netlist is accepted if nothing is found wrong with it and ground is connected. -/
theorem errors_compile_eq_zero
    (hresolved : (w.prepare disk label text).forestErrors = 0)
    (hquiet : (w.prepare disk label text).expansionFindings = [])
    (hground : (w.prepare disk label text).flatten.2.connectedNodes.contains groundNode = true) :
    (w.compile disk label text).2.errors = 0 := by
  unfold prepare at hresolved hquiet hground
  rw [compile_eq]
  generalize w.readNetlist disk label text = read at hresolved hquiet hground ⊢
  have hread : read.forestErrors = 0 := by
    rw [forestErrors_resolve] at hresolved
    omega
  unfold finishNetlist
  rw [hread, if_neg (Nat.lt_irrefl 0), hresolved, if_neg (Nat.lt_irrefl 0)]
  show (read.resolve.1.flatten.2.complete read.resolve.1.globals).1.errors = 0
  rw [Circuit.errors_complete, hground, if_pos rfl, errors_flatten, hquiet, hresolved]
  rfl

/-- In a regular workspace the sub-circuits have their elements under their names. -/
theorem Regular.keyed_expansionSetting (h : w.Regular) : w.expansionSetting.Keyed := by
  intro key proto hproto
  change (w.definitions key.store)[key.path]? = some proto at hproto
  cases hstore : key.store with
  | netlist =>
    rw [hstore] at hproto
    exact (h.forest _ _ hproto).keyed
  | user =>
    rw [hstore] at hproto
    exact (h.user _ _ hproto).1.keyed
  | builtin =>
    rw [hstore] at hproto
    exact (h.builtin _ _ hproto).1.keyed

/-- No two instances of a netlist that is ready are reached on one way. -/
theorem Ready.nodup_path_expanded (h : w.Ready) : (w.expanded.map Occurrence.path).Nodup :=
  Setting.nodup_path_expanded h.regular.keyed_expansionSetting
    (h.regular.forest _ _ h.forest).keyed

/-- What a netlist that is ready is flattened to. -/
theorem Ready.flatten_spec (h : w.Ready) :
    (Expansion.flatten w.expansionSetting w.netlist).1.elements.toList.Perm
        ((w.places.filter Occurrence.isLeaf).map fun l => (flatName l.path, l.outer)) ∧
      (Expansion.flatten w.expansionSetting w.netlist).1.params =
        w.expanded.foldl w.expansionSetting.defineAt w.netlist.params := by
  have hkeyed := (h.regular.forest _ _ h.forest).keyed
  obtain ⟨-, -, -, -, -, hparams, hkeys, -, hrows⟩ := flatten_of_quiet h.quiet hkeyed h.bound
  refine ⟨toList_perm_of_values_perm hkeys hrows fun l hl => ?_, hparams⟩
  rcases List.mem_append.1 (List.mem_of_mem_filter hl) with hl | hl
  · exact faithful_of_mem_tops hl
  · obtain ⟨o, ho, hl⟩ := List.mem_flatMap.1 hl
    exact (Setting.faithful_of_mem_expanded ho).inside hl

/-- The flat circuit of a netlist without errors has the leaves among the places as its elements,
under their flat names. -/
theorem getElem?_elements_of_accepted (h : w.Regular)
    (haccepted : (w.compile disk label text).2.errors = 0) {name : String} {e : Element} :
    (w.compile disk label text).2.elements[name]? = some e ↔
      ∃ l ∈ (w.prepare disk label text).places, l.isLeaf = true ∧ flatName l.path = name ∧
        l.outer = e := by
  obtain ⟨hready, hcircuit⟩ := ready_of_accepted h haccepted
  rw [hcircuit, Circuit.elements_complete, ← Std.ExtTreeMap.mem_toList_iff_getElem?_eq_some,
    hready.flatten_spec.1.mem_iff, List.mem_map]
  simp only [List.mem_filter, Prod.mk.injEq, and_assoc]

end Workspace

end FlatNet
