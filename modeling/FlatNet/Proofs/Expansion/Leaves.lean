import FlatNet.Proofs.Expansion.Queue
import FlatNet.Proofs.Expansion.QuietRun
import FlatNet.Proofs.Expansion.Terminals
import FlatNet.Proofs.Library.Loading

/-!
# Flattening as recursive expansion

If nothing is found wrong while a resolved netlist is flattened, the flat circuit has exactly the
leaves of the recursive expansion, each under the name of its place, and its parameters are those
that the instances define in the order of expansion.  The leaves are places of the netlist, and so
their nodes and parameters are what the hierarchy says of them.
-/

set_option autoImplicit false

namespace FlatNet

namespace Expansion

/-- In a definition whose elements are bound, places are leaves or instances. -/
theorem isLeaf_eq_not_isInstance_of_mem_tops {root : Definition}
    (hbound : ∀ e ∈ root.elements.values, e.isUnresolved = false) {o : Occurrence}
    (ho : o ∈ tops root) : o.isLeaf = !o.isInstance := by
  obtain ⟨e, he, rfl⟩ := List.mem_map.1 ho
  exact Occurrence.isLeaf_eq_not_isInstance (hbound e he)

/-- At the beginning the instances of the netlist wait and everything else is settled. -/
theorem stands_begin {root : Definition} (hkeyed : Keyed root.elements)
    (hbound : ∀ e ∈ root.elements.values, e.isUnresolved = false) :
    Stands (begin root) ((tops root).filter Occurrence.isLeaf)
      ((tops root).filter Occurrence.isInstance) [] where
  keyed := hkeyed
  elements := by
    have hvalues : root.elements.values = (tops root).map Occurrence.outer := by
      rw [tops, List.map_map]
      exact (List.map_id _).symm
    have hinstances : (tops root).filter Occurrence.isInstance =
        (tops root).filter fun o => !o.isLeaf := by
      refine List.filter_congr fun o ho => ?_
      rw [isLeaf_eq_not_isInstance_of_mem_tops hbound ho, Bool.not_not]
    show root.elements.values.Perm _
    rw [hvalues, List.append_nil, hinstances]
    exact (List.filter_append_perm Occurrence.isLeaf (tops root)).symm.map Occurrence.outer
  next := rfl
  settled := fun _ ho => (List.mem_filter.1 ho).2
  waiting := fun _ ho => (List.mem_filter.1 ho).2
  found := by simp

/-- The instances of a netlist are those among its places. -/
theorem instanceNames_eq (root : Definition) :
    instanceNames root.elements =
      ((tops root).filter Occurrence.isInstance).map fun o => o.outer.refDes := by
  rw [instanceNames, tops, List.filter_map, List.map_map]
  rfl

/-- What flattening a netlist results in, if nothing is found wrong: all that the work queue leaves,
which are the leaves of the recursive expansion and the leaves among all places, and the parameters
that the instances define. -/
theorem flatten_of_quiet {s : Setting} {root : Definition} (hquiet : (flatten s root).2 = [])
    (hkeyed : Keyed root.elements)
    (hbound : ∀ e ∈ root.elements.values, e.isUnresolved = false) :
    ∃ leaves p, Expands s (tops root) leaves ∧
      Drains s (begin root) ((instanceNames root.elements).map fun name => (name, 1)) p ∧
      (flatten s root).1.elements = p.circuit.elements ∧
      (flatten s root).1.params = (s.expanded root).foldl s.defineAt root.params ∧
      Keyed (flatten s root).1.elements ∧
      (flatten s root).1.elements.values.Perm (leaves.map Occurrence.outer) ∧
      (flatten s root).1.elements.values.Perm
        (((s.places root).filter Occurrence.isLeaf).map Occurrence.outer) := by
  have hrun : (expandLevels s s.maxDepth (instanceNames root.elements) (begin root)).Quiet :=
    Array.toList_eq_nil_iff.1 hquiet
  rw [instanceNames_eq] at hrun
  obtain ⟨below, hbelow, hparams, hkeys, hperm, hrows⟩ :=
    stands_expandLevels hrun rfl (stands_begin hkeyed hbound)
  have htops := fun o (ho : o ∈ tops root) => isLeaf_eq_not_isInstance_of_mem_tops hbound ho
  have hleaves : Expands s (tops root)
      ((tops root).flatMap fun o => if o.isLeaf then [o] else below o) :=
    expands_flatMap htops fun o ho hinst => hbelow o (List.mem_filter.2 ⟨ho, hinst⟩)
  have hvalues := hperm.trans ((leaves_perm_flatMap below htops).map Occurrence.outer)
  -- no instance is left over to be taken out
  have hall : (flatten s root).1.elements =
      (expandLevels s s.maxDepth (instanceNames root.elements) (begin root)).circuit.elements := by
    refine NameMap.filter_eq_self fun e he => ?_
    change e ∈ (expandLevels s s.maxDepth (instanceNames root.elements)
      (begin root)).circuit.elements.values at he
    rw [instanceNames_eq] at he
    obtain ⟨o, ho, rfl⟩ := List.mem_map.1 (hvalues.mem_iff.1 he)
    exact hleaves.isLeaf o ho
  rw [← List.filter_append] at hrows
  rw [← instanceNames_eq] at hparams hkeys hvalues hrows
  have hdrains := drains_expandLevels (s := s) (p := begin root) s.maxDepth (Nat.le_refl _)
    (instanceNames root.elements) rfl
  rw [Nat.add_sub_cancel_left] at hdrains
  refine ⟨_, _, hleaves, hdrains, hall, hparams, ?_⟩
  rw [hall]
  exact ⟨hkeys, hvalues, hrows⟩

/-- If nothing is found wrong, every instance in the netlist and inside an instance is expanded. -/
theorem closed_expanded_of_quiet {s : Setting} {root : Definition}
    (hquiet : (flatten s root).2 = []) (hkeyed : Keyed root.elements)
    (hbound : ∀ e ∈ root.elements.values, e.isUnresolved = false) :
    (∀ o ∈ tops root, o.isInstance = true → o ∈ s.expanded root) ∧
      ∀ o ∈ s.expanded root, ∀ c ∈ s.inside o, c.isInstance = true → c ∈ s.expanded root := by
  have hrun : (expandLevels s s.maxDepth (instanceNames root.elements) (begin root)).Quiet :=
    Array.toList_eq_nil_iff.1 hquiet
  rw [instanceNames_eq] at hrun
  obtain ⟨hbegin, hclosed⟩ := closed_instancesFrom hrun rfl (stands_begin hkeyed hbound)
  exact ⟨fun o ho hinst => hbegin (List.mem_filter.2 ⟨ho, hinst⟩), hclosed⟩

/-- If nothing is found wrong, the places inside a place are places of the netlist. -/
theorem inside_subset_places_of_quiet {s : Setting} {root : Definition}
    (hquiet : (flatten s root).2 = []) (hkeyed : Keyed root.elements)
    (hbound : ∀ e ∈ root.elements.values, e.isUnresolved = false) {o : Occurrence}
    (ho : o ∈ s.places root) : s.inside o ⊆ s.places root := by
  intro c hc
  obtain ⟨hbegin, hclosed⟩ := closed_expanded_of_quiet hquiet hkeyed hbound
  obtain ⟨i, hinst, -⟩ := Setting.exists_copy_of_mem_inside hc
  have hinstance := Setting.isInstance_of_instance? hinst
  have hexpanded : o ∈ s.expanded root := by
    rcases List.mem_append.1 ho with htop | hbelow
    · exact hbegin o htop hinstance
    · obtain ⟨around, haround, hinside⟩ := List.mem_flatMap.1 hbelow
      exact hclosed around haround o hinside hinstance
  exact List.mem_append_right _ (List.mem_flatMap.2 ⟨o, hexpanded, hc⟩)

/-- If nothing is found wrong, the leaves of the recursive expansion are places of the netlist. -/
theorem leaves_subset_places_of_quiet {s : Setting} {root : Definition} {leaves : List Occurrence}
    (hquiet : (flatten s root).2 = []) (hkeyed : Keyed root.elements)
    (hbound : ∀ e ∈ root.elements.values, e.isUnresolved = false)
    (hleaves : Expands s (tops root) leaves) : leaves ⊆ s.places root :=
  hleaves.forall_mem (fun _ ho => List.mem_append_left _ ho)
    fun _ ho _ hc => inside_subset_places_of_quiet hquiet hkeyed hbound ho hc

end Expansion

namespace Workspace

open Expansion

/-- The netlist that has been read. -/
def netlist (w : Workspace) : Definition := (w.forest[""]?).getD default

/-- What is found wrong while the netlist is flattened. -/
def expansionFindings (w : Workspace) : List Finding :=
  match w.forest[""]? with
  | none => []
  | some root => (Expansion.flatten w.expansionSetting root).2

/-- Flattening records its findings and changes nothing else in the workspace. -/
theorem flatten_fst (w : Workspace) : w.flatten.1 = w.recordAll w.expansionFindings := by
  unfold flatten expansionFindings
  cases w.forest[""]? with
  | none => rfl
  | some root => rfl

/-- Flattening adds no diagnostic exactly if it has no findings. -/
theorem diagnostics_flatten_eq_iff (w : Workspace) :
    w.flatten.1.diagnostics = w.diagnostics ↔ w.expansionFindings = [] := by
  rw [flatten_fst]
  constructor
  · intro h
    have hfindings : w.diagnostics.findings ++ w.expansionFindings = w.diagnostics.findings := by
      rw [← Diagnostics.findings_recordAll]
      exact congrArg Diagnostics.findings h
    exact List.append_right_eq_self.1 hfindings
  · intro h
    rw [h]
    rfl

/-- Resolution resolves the forest among the libraries at hand. -/
theorem forest_resolve (w : Workspace) :
    w.resolve.1.forest = (w.forest.resolve (Loading.surroundings .netlist w)).1 := rfl

/-- Resolution leaves the elements of the netlist under their own names. -/
theorem keyed_resolve {w : Workspace}
    (h : ∀ root, w.forest[""]? = some root → Keyed root.elements) :
    ∀ root, w.resolve.1.forest[""]? = some root → Keyed root.elements := by
  intro root hroot
  rw [forest_resolve] at hroot
  obtain ⟨d₀, defs, hd₀, rfl, -⟩ := Forest.resolve_spec hroot
  exact Definition.keyed_resolved (h d₀ hd₀)

/-- The entries of a circuit whose elements are those of faithful places. -/
theorem toList_perm_of_values_perm {elements : NameMap Element} {leaves : List Occurrence}
    (hkeyed : Keyed elements) (hvalues : elements.values.Perm (leaves.map Occurrence.outer))
    (hfaithful : ∀ l ∈ leaves, l.Faithful) :
    elements.toList.Perm (leaves.map fun l => (flatName l.path, l.outer)) := by
  have hentries : elements.toList = elements.values.map fun e => (e.refDes, e) := by
    rw [NameMap.values_eq_map_toList, List.map_map]
    refine (List.map_id _).symm.trans (List.map_congr_left fun entry hentry => ?_)
    obtain ⟨name, e⟩ := entry
    have hname := hkeyed name e (Std.ExtTreeMap.mem_toList_iff_getElem?_eq_some.1 hentry)
    show (name, e) = (e.refDes, e)
    rw [hname]
  have hnames : (leaves.map fun l => (flatName l.path, l.outer)) =
      (leaves.map Occurrence.outer).map fun e => (e.refDes, e) := by
    rw [List.map_map]
    refine List.map_congr_left fun l hl => ?_
    show (flatName l.path, l.outer) = (l.outer.refDes, l.outer)
    rw [(hfaithful l hl).refDes]
  rw [hentries, hnames]
  exact hvalues.map _

/-- What flattening results in, if nothing is found wrong in a netlist whose elements are bound. -/
theorem leaves_of_quiet {w : Workspace}
    (hkeyed : ∀ root, w.forest[""]? = some root → Keyed root.elements)
    (hbound : ∀ root, w.forest[""]? = some root →
      ∀ e ∈ root.elements.values, e.isUnresolved = false)
    (hquiet : w.flatten.1.diagnostics = w.diagnostics) :
    ∃ leaves p, Expands w.expansionSetting (tops w.netlist) leaves ∧
      Drains w.expansionSetting (begin w.netlist)
        ((instanceNames w.netlist.elements).map fun name => (name, 1)) p ∧
      w.flatten.2.elements = p.circuit.elements ∧
      w.flatten.2.elements.toList.Perm (leaves.map fun l => (flatName l.path, l.outer)) ∧
      (∀ l ∈ leaves, l.isLeaf = true ∧ l ∈ w.expansionSetting.places w.netlist) ∧
      ∀ o ∈ w.expansionSetting.places w.netlist,
        w.expansionSetting.inside o ⊆ w.expansionSetting.places w.netlist := by
  have hnil := (diagnostics_flatten_eq_iff w).1 hquiet
  unfold expansionFindings at hnil
  unfold netlist flatten
  cases hroot : w.forest[""]? with
  | none =>
    have hplaces : w.expansionSetting.places default = [] := by
      unfold Setting.places Setting.expanded
      show [] ++ (w.expansionSetting.instancesFrom _ []).flatMap _ = []
      rw [Setting.instancesFrom_nil]
      rfl
    refine ⟨[], begin default, .nil, .done, rfl, .refl _, by simp, fun o ho => ?_⟩
    rw [Option.getD_none, hplaces] at ho
    exact absurd ho List.not_mem_nil
  | some root =>
    rw [hroot] at hnil
    obtain ⟨leaves, p, hexpands, hdrains, helements, -, hkeys, hvalues, -⟩ :=
      flatten_of_quiet hnil (hkeyed root hroot) (hbound root hroot)
    have hfaithful := hexpands.faithful fun o ho => faithful_of_mem_tops ho
    have hplaces := leaves_subset_places_of_quiet hnil (hkeyed root hroot) (hbound root hroot)
      hexpands
    exact ⟨leaves, p, hexpands, hdrains, helements,
      toList_perm_of_values_perm hkeys hvalues hfaithful,
      fun l hl => ⟨hexpands.isLeaf l hl, hplaces hl⟩,
      fun _ ho => inside_subset_places_of_quiet hnil (hkeyed root hroot) (hbound root hroot) ho⟩

/-- If a netlist is resolved without errors and nothing is found wrong while it is flattened, then
the elements of the flat circuit, which are all that the work queue leaves, are the leaves of the
recursive expansion, one for one, each under the names on the way to it.  Every leaf is a place of
the netlist, and so is what stands inside a place.  Every place is what the hierarchy says of it:
apart from its names it is the element of its definition, its terminals are at the flat names of
their nets, and its parameters are what the expressions in its definition stand for in the instance
around it. -/
theorem flatten_refines_expansion {w : Workspace}
    (hkeyed : ∀ root, w.forest[""]? = some root → Keyed root.elements)
    (hresolved : w.resolve.2 = 0)
    (hquiet : w.resolve.1.flatten.1.diagnostics = w.resolve.1.diagnostics) :
    ∃ leaves p, Expands w.resolve.1.expansionSetting (tops w.resolve.1.netlist) leaves ∧
      (∀ others, Expands w.resolve.1.expansionSetting (tops w.resolve.1.netlist) others →
        others = leaves) ∧
      Drains w.resolve.1.expansionSetting (begin w.resolve.1.netlist)
        ((instanceNames w.resolve.1.netlist.elements).map fun name => (name, 1)) p ∧
      w.resolve.1.flatten.2.elements = p.circuit.elements ∧
      w.resolve.1.flatten.2.elements.toList.Perm
        (leaves.map fun l => (flatName l.path, l.outer)) ∧
      (leaves.map fun l => flatName l.path).Nodup ∧
      (∀ l ∈ leaves, l.isLeaf = true ∧ l.Faithful ∧
        l ∈ w.resolve.1.expansionSetting.places w.resolve.1.netlist) ∧
      ∀ o ∈ w.resolve.1.expansionSetting.places w.resolve.1.netlist,
        w.resolve.1.expansionSetting.Derives w.resolve.1.netlist o ∧
          w.resolve.1.expansionSetting.inside o ⊆
            w.resolve.1.expansionSetting.places w.resolve.1.netlist := by
  have hbound : ∀ root, w.resolve.1.forest[""]? = some root →
      ∀ e ∈ root.elements.values, e.isUnresolved = false :=
    fun root hroot e he => Forest.bound_of_errorCount_eq_zero hresolved hroot he
  obtain ⟨leaves, p, hexpands, hdrains, helements, hperm, hleaves, hinside⟩ :=
    leaves_of_quiet (keyed_resolve hkeyed) hbound hquiet
  have hderives : ∀ o ∈ w.resolve.1.expansionSetting.places w.resolve.1.netlist,
      w.resolve.1.expansionSetting.Derives w.resolve.1.netlist o :=
    fun _ ho => Setting.derives_of_mem_places ho
  refine ⟨leaves, p, hexpands, fun others hothers => hothers.unique hexpands, hdrains, helements,
    hperm, ?_, fun l hl => ?_, fun o ho => ⟨hderives o ho, hinside o ho⟩⟩
  · have hnodup := (hperm.map Prod.fst).nodup_iff.1 (NameMap.nodup_map_fst_toList _)
    rwa [List.map_map] at hnodup
  · obtain ⟨hleaf, hplace⟩ := hleaves l hl
    exact ⟨hleaf, (hderives l hplace).faithful, hplace⟩

/-- A netlist with a sub-circuit inside a sub-circuit, read without any library.  The outer one sets
the parameter of the inner one twice, each time to a symbol that nothing defines. -/
def nested : Workspace :=
  (withBuiltin {} Library.empty).readNetlist Disk.empty "nested.cir"
    ("t\n.subckt inner p q k=2\nR1 p q \x7bk\x7d\n.ends\n" ++
      ".subckt outer a b\nX1 a m inner k=\x7bt\x7d\nX2 m b inner k=\x7bu\x7d\n.ends\n" ++
        "X9 1 0 outer\n.end\n")

/-- The places of the nested netlist. -/
def nestedPlaces : List Occurrence :=
  nested.resolve.1.expansionSetting.places nested.resolve.1.netlist

/-- The expression is this symbol. -/
def isSymbol (name : String) : Expr → Bool
  | .sym other => other == name
  | _ => false

/-- A value that is recognised as a symbol is the symbol. -/
theorem eq_some_of_any_isSymbol {name : String} {value : Option Expr}
    (h : value.any (isSymbol name) = true) : value = some (.sym name) := by
  obtain ⟨e, rfl, he⟩ := (Option.any_eq_true _ _).1 h
  cases e with
  | sym other => rw [eq_of_beq he]
  | num _ | neg _ | binary _ _ _ | call _ _ => exact absurd he Bool.false_ne_true

/-- If the instances of the inner sub-circuit under the name `x` set its parameter to a symbol that
is free in the outer one, the resistors inside them have the symbol that it becomes. -/
theorem value_of_mem_nestedPlaces (x name : String)
    (hset : (nestedPlaces.all fun o =>
      o.path != [x, "X9"] || (o.inner.params["k"]?).any (isSymbol name)) = true)
    (hfree : (nestedPlaces.all fun o => o.path != ["X9"] ||
      (nested.resolve.1.expansionSetting.instance? o.outer).all fun i =>
        decide (i.Free nested.resolve.1.expansionSetting.globals name)) = true)
    {l : Occurrence} (hl : l ∈ nestedPlaces) (haround : l.around = [x, "X9"])
    (hvalue : l.inner.params["value"]? = some (.sym "k")) :
    l.outer.params["value"]? = some (.sym (flatName [name, "X9"])) := by
  refine (Setting.derives_of_mem_places hl).getElem?_params_of_actual
    (haround ▸ List.cons_ne_nil _ _) hvalue (by decide) fun o ho hpath => ?_
  rw [haround] at hpath
  have hbelow : o.around = ["X9"] := (List.cons.inj hpath).2
  have hk : o.inner.params["k"]? = some (.sym name) := by
    have htest := List.all_eq_true.1 hset o ho
    rw [hpath, bne_self_eq_false, Bool.false_or] at htest
    exact eq_some_of_any_isSymbol htest
  rw [← hbelow]
  refine (Setting.derives_of_mem_places ho).getElem?_params_of_free
    (hbelow ▸ List.cons_ne_nil _ _) hk fun around haround' hpath' i hinst => ?_
  have htest := List.all_eq_true.1 hfree around haround'
  rw [hpath', hbelow, bne_self_eq_false, Bool.false_or, hinst, Option.all_some] at htest
  exact of_decide_eq_true htest

set_option maxRecDepth 100000 in
/-- The leaves of the nested netlist are resistors inside `X1` and `X2`, and their values are the
symbols that these instances set. -/
theorem value_of_leaf {l : Occurrence} (hl : l ∈ nestedPlaces) (hleaf : l.isLeaf = true) :
    l.outer.params["value"]? =
      some (.sym (if flatName l.path = "R1_X1_X9" then "t_X9" else "u_X9")) := by
  have hplaces : (nestedPlaces.all fun o => !o.isLeaf ||
      (o.inner.params["value"]?).any (isSymbol "k") &&
        (o.path == ["R1", "X1", "X9"] || o.path == ["R1", "X2", "X9"])) = true := by
    decide +kernel
  have htest := List.all_eq_true.1 hplaces l hl
  rw [hleaf, Bool.not_true, Bool.false_or, Bool.and_eq_true, Bool.or_eq_true] at htest
  have hvalue := eq_some_of_any_isSymbol htest.1
  rcases htest.2 with hpath | hpath
  · rw [eq_of_beq hpath, if_pos (by decide)]
    exact value_of_mem_nestedPlaces "X1" "t" (by decide +kernel)
      (by decide +kernel) hl (List.cons.inj (eq_of_beq hpath)).2 hvalue
  · rw [eq_of_beq hpath, if_neg (by decide)]
    exact value_of_mem_nestedPlaces "X2" "u" (by decide +kernel)
      (by decide +kernel) hl (List.cons.inj (eq_of_beq hpath)).2 hvalue

set_option maxRecDepth 100000 in
/-- The nested netlist is resolved and flattened without findings.  Its leaves are the two resistors
of the inner sub-circuit: they meet at a node that is the outer one's own, and the value of each is
the symbol to which the outer one sets the parameter of the inner one. -/
theorem flatten_refines_expansion_nested :
    nested.resolve.2 = 0 ∧ nested.resolve.1.flatten.1.diagnostics = nested.resolve.1.diagnostics ∧
      ∃ leaves, Expands nested.resolve.1.expansionSetting (tops nested.resolve.1.netlist) leaves ∧
        nested.resolve.1.flatten.2.elements.toList.Perm
          (leaves.map fun l => (flatName l.path, l.outer)) ∧
        (leaves.map fun l => (flatName l.path, l.outer.nodes, l.outer.params["value"]?)).Perm
          [("R1_X1_X9", ["1", "m_X9"], some (.sym "t_X9")),
            ("R1_X2_X9", ["m_X9", "0"], some (.sym "u_X9"))] ∧
        ∀ l ∈ leaves, nested.resolve.1.expansionSetting.Derives nested.resolve.1.netlist l := by
  have hregular : nested.Regular :=
    (regular_withBuiltin {} Library.regular_empty).readNetlist Disk.empty _ _
  have hkeyed : ∀ root, nested.forest[""]? = some root → Keyed root.elements :=
    fun root hroot => (hregular.forest "" root hroot).keyed
  have hresolved : nested.resolve.2 = 0 := by decide +kernel
  have hfindings : nested.resolve.1.expansionFindings = [] := by decide +kernel
  have hquiet := (diagnostics_flatten_eq_iff nested.resolve.1).2 hfindings
  have hnodes : (nested.resolve.1.flatten.2.elements.toList.map fun x => (x.1, x.2.nodes)) =
      [("R1_X1_X9", ["1", "m_X9"]), ("R1_X2_X9", ["m_X9", "0"])] := by decide +kernel
  obtain ⟨leaves, -, hexpands, -, -, -, hperm, -, hleaves, hderives⟩ :=
    flatten_refines_expansion hkeyed hresolved hquiet
  refine ⟨hresolved, hquiet, leaves, hexpands, hperm, ?_,
    fun l hl => (hderives l (hleaves l hl).2.2).1⟩
  have hrows := (hperm.map fun x => (x.1, x.2.nodes)).symm
  rw [List.map_map, hnodes] at hrows
  -- the value of a leaf goes by its name
  have hvalues := hrows.map fun x => (x.1, x.2,
    some (Expr.sym (if x.1 = "R1_X1_X9" then "t_X9" else "u_X9")))
  rw [List.map_map] at hvalues
  refine (List.Perm.of_eq (List.map_congr_left fun l hl => ?_)).trans hvalues
  rw [value_of_leaf (hleaves l hl).2.2 (hleaves l hl).1]
  rfl

end Workspace

end FlatNet
