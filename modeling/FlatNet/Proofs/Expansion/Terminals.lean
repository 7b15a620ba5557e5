import FlatNet.Proofs.Expansion.Occurrence
import FlatNet.Proofs.Instance.Definitions

/-!
# Terminals and their nets

Every terminal of a place is on a net of the hierarchy: a node that the netlist writes, ground, or a
node of an instance alone, whichever is met first on the way up through interfaces.  `Connects` and
`Dangles` say which net this is without any map of connections and without any new name;
`exists_onNet` finds one for every terminal, and the flat node of the terminal is the flat name of
that net.  `Setting.Derives` gathers what the hierarchy says of a place, and
`Setting.derives_of_mem_places` that every place keeps to it.
-/

set_option autoImplicit false

namespace FlatNet

namespace Instance

/-- A node that is not in the interface is connected to none of the instance. -/
theorem getElem?_foldl_insert_of_not_mem {joined : List (String × String)} {m : NameMap String}
    {name : String} (h : ∀ entry ∈ joined, entry.1 ≠ name) :
    (joined.foldl (fun m entry => m.insert entry.1 entry.2) m)[name]? = m[name]? := by
  induction joined generalizing m with
  | nil => rfl
  | cons entry rest ih =>
    obtain ⟨hentry, hrest⟩ := List.forall_mem_cons.1 h
    rw [List.foldl_cons, ih hrest, Std.ExtTreeMap.getElem?_insert]
    exact if_neg fun heq => hentry (Std.LawfulEqCmp.compare_eq_iff_eq.1 heq)

/-- An interface node is connected to what its last occurrence says. -/
theorem getElem?_foldl_insert_of_last {joined : List (String × String)} {m : NameMap String}
    {j : Nat} {name actual : String} (hj : joined[j]? = some (name, actual))
    (hlast : ∀ k other, j < k → joined[k]? ≠ some (name, other)) :
    (joined.foldl (fun m entry => m.insert entry.1 entry.2) m)[name]? = some actual := by
  induction joined generalizing m j with
  | nil => exact absurd hj (by simp)
  | cons entry rest ih =>
    rw [List.foldl_cons]
    cases j with
    | zero =>
      have hentry : entry = (name, actual) := Option.some.inj hj
      rw [getElem?_foldl_insert_of_not_mem, hentry]
      · exact Std.ExtTreeMap.getElem?_insert_self
      · intro later hlater heq
        obtain ⟨k, hk⟩ := List.mem_iff_getElem?.1 hlater
        refine hlast (k + 1) later.2 (Nat.succ_pos k) ?_
        rw [List.getElem?_cons_succ, hk, ← heq]
    | succ j =>
      refine ih hj fun k other hk => ?_
      exact hlast (k + 1) other (Nat.succ_lt_succ hk)

/-- An interface node is the node that the instance has at the last position of its name. -/
theorem node_of_last (i : Instance) {n actual : String} {j : Nat} (hground : n ≠ groundNode)
    (hj : (i.proto.nodes.zip i.element.nodes)[j]? = some (n, actual))
    (hlast : ∀ k other, j < k → (i.proto.nodes.zip i.element.nodes)[k]? ≠ some (n, other)) :
    i.node n = actual := by
  have hconnected : i.connections[n]? = some actual := getElem?_foldl_insert_of_last hj hlast
  unfold node
  rw [if_neg hground, hconnected]
  rfl

/-- A node that no terminal of the instance is connected to is renamed. -/
theorem node_of_left (i : Instance) {n : String} (hground : n ≠ groundNode)
    (h : n ∉ (i.proto.nodes.zip i.element.nodes).map Prod.fst) : i.node n = i.rename n := by
  have hnone : i.connections[n]? = none := by
    unfold connections
    rw [getElem?_foldl_insert_of_not_mem]
    · simp
    · exact fun entry hentry heq => h (List.mem_map.2 ⟨entry, hentry, heq⟩)
  unfold node
  rw [if_neg hground, hnone]
  rfl

/-- A node of the sub-circuit alone is renamed. -/
theorem node_of_not_mem (i : Instance) {n : String} (hground : n ≠ groundNode)
    (h : n ∉ i.proto.nodes) : i.node n = i.rename n := by
  refine i.node_of_left hground fun hjoined => ?_
  obtain ⟨entry, hentry, rfl⟩ := List.mem_map.1 hjoined
  exact h (List.of_mem_zip hentry).1

end Instance

namespace Expansion

variable {s : Setting} {root : Definition} {o c : Occurrence} {n : String}

/-- The nodes of an instance's sub-circuit that are neither ground nor in the interface. -/
def Setting.ownNodes (s : Setting) (o : Occurrence) : List String :=
  match s.instance? o.outer with
  | none => []
  | some i =>
    (NameSet.ofList (i.proto.elements.values.flatMap Element.nodes)).toList.filter fun n =>
      n != groundNode && !i.proto.nodes.contains n

/-- The node of the flat circuit that a node inside an instance is. -/
def Setting.flatNode (s : Setting) (o : Occurrence) (n : String) : String :=
  match s.instance? o.outer with
  | none => n
  | some i => i.node n

/-- The flat node of a node inside an instance is what the instance makes of it. -/
theorem Setting.flatNode_of_instance? {i : Instance} (hinst : s.instance? o.outer = some i) :
    s.flatNode o n = i.node n := by
  unfold Setting.flatNode
  rw [hinst]

/-- The copies inside an instance have the flat nodes of its sub-circuit's elements. -/
theorem Setting.nodes_of_mem_inside (hc : c ∈ s.inside o) :
    c.outer.nodes = c.inner.nodes.map (s.flatNode o) := by
  unfold Setting.inside at hc
  unfold Setting.flatNode
  cases hinst : s.instance? o.outer with
  | none =>
    rw [hinst] at hc
    exact absurd hc List.not_mem_nil
  | some i =>
    rw [hinst] at hc
    obtain ⟨copy, hcopy, rfl⟩ := List.mem_map.1 hc
    obtain ⟨-, m, heq⟩ := Instance.exists_eq_copy_of_mem_copies hcopy
    show copy.2.nodes = copy.1.nodes.map i.node
    rw [heq, Instance.nodes_copy]

/-- An own node of an instance has the flat name of its way. -/
theorem Setting.flatNode_of_mem_ownNodes (ho : o.Faithful) (hn : n ∈ s.ownNodes o) :
    s.flatNode o n = flatName (n :: o.path) := by
  unfold Setting.ownNodes at hn
  cases hinst : s.instance? o.outer with
  | none =>
    rw [hinst] at hn
    exact absurd hn List.not_mem_nil
  | some i =>
    rw [hinst] at hn
    have hown : n ≠ groundNode ∧ n ∉ i.proto.nodes := by simpa using (List.mem_filter.1 hn).2
    rw [Setting.flatNode_of_instance? hinst, i.node_of_not_mem hown.1 hown.2]
    exact ho.rename (Setting.instance?_eq_some_iff.1 hinst).1 n

/-- The terminal `k` of a place is on the net of the hierarchy that is given by the way to its
node.  An interface node is on the net of the instance's terminal that it stands for; of two
interface nodes with one name this is the later one. -/
inductive Connects (s : Setting) (root : Definition) : Occurrence → Nat → List String → Prop
  | top {o : Occurrence} {k : Nat} {n : String} (ho : o ∈ tops root)
      (hk : o.inner.nodes[k]? = some n) : Connects s root o k [n]
  | ground {o c : Occurrence} {k : Nat} (hc : c ∈ s.inside o)
      (hk : c.inner.nodes[k]? = some groundNode) : Connects s root c k [groundNode]
  | formal {o c : Occurrence} {i : Instance} {j k : Nat} {n actual : String} {net : List String}
      (hinst : s.instance? o.outer = some i) (hc : c ∈ s.inside o)
      (hk : c.inner.nodes[k]? = some n) (hground : n ≠ groundNode)
      (hj : (i.proto.nodes.zip o.outer.nodes)[j]? = some (n, actual))
      (hlast : ∀ j' other, j < j' → (i.proto.nodes.zip o.outer.nodes)[j']? ≠ some (n, other))
      (hnet : Connects s root o j net) : Connects s root c k net
  | own {o c : Occurrence} {k : Nat} {n : String} (ho : o ∈ s.expanded root)
      (hc : c ∈ s.inside o) (hk : c.inner.nodes[k]? = some n) (hn : n ∈ s.ownNodes o) :
      Connects s root c k (n :: o.path)

/-- The terminal `k` of a place is at an interface node for which an instance around it has no
terminal left.  Such a node is a node of that instance alone, and its net is given by the way to
it. -/
inductive Dangles (s : Setting) (root : Definition) : Occurrence → Nat → List String → Prop
  | here {o c : Occurrence} {i : Instance} {k : Nat} {n : String} (ho : o ∈ s.expanded root)
      (hinst : s.instance? o.outer = some i) (hc : c ∈ s.inside o)
      (hk : c.inner.nodes[k]? = some n) (hground : n ≠ groundNode) (hformal : n ∈ i.proto.nodes)
      (hleft : n ∉ (i.proto.nodes.zip o.outer.nodes).map Prod.fst) :
      Dangles s root c k (n :: o.path)
  | formal {o c : Occurrence} {i : Instance} {j k : Nat} {n actual : String} {net : List String}
      (hinst : s.instance? o.outer = some i) (hc : c ∈ s.inside o)
      (hk : c.inner.nodes[k]? = some n) (hground : n ≠ groundNode)
      (hj : (i.proto.nodes.zip o.outer.nodes)[j]? = some (n, actual))
      (hlast : ∀ j' other, j < j' → (i.proto.nodes.zip o.outer.nodes)[j']? ≠ some (n, other))
      (hnet : Dangles s root o j net) : Dangles s root c k net

/-- The terminal `k` of a place is on a net of the hierarchy. -/
def OnNet (s : Setting) (root : Definition) (o : Occurrence) (k : Nat) (net : List String) : Prop :=
  Connects s root o k net ∨ Dangles s root o k net

/-! ## The node of a terminal -/

/-- A terminal inside an instance has the flat node of the node that it is at there. -/
theorem Setting.getElem?_nodes_of_mem_inside {k : Nat} (hc : c ∈ s.inside o)
    (hk : c.inner.nodes[k]? = some n) : c.outer.nodes[k]? = some (s.flatNode o n) := by
  rw [Setting.nodes_of_mem_inside hc, List.getElem?_map, hk]
  rfl

/-- Ground is ground in every instance. -/
theorem Setting.flatNode_ground (s : Setting) (o : Occurrence) :
    s.flatNode o groundNode = groundNode := by
  unfold Setting.flatNode
  split
  · rfl
  · exact if_pos rfl

/-- The flat node of an interface node is the node that the instance has at the last position of its
name. -/
theorem Setting.flatNode_of_last {i : Instance} {j : Nat} {actual : String}
    (hinst : s.instance? o.outer = some i) (hground : n ≠ groundNode)
    (hj : (i.proto.nodes.zip o.outer.nodes)[j]? = some (n, actual))
    (hlast : ∀ j' other, j < j' → (i.proto.nodes.zip o.outer.nodes)[j']? ≠ some (n, other)) :
    s.flatNode o n = actual := by
  rw [← (Setting.instance?_eq_some_iff.1 hinst).1] at hj hlast
  rw [Setting.flatNode_of_instance? hinst, i.node_of_last hground hj hlast]

/-- The flat node of an interface node without a terminal of the instance is the renamed node. -/
theorem Setting.flatNode_of_left {i : Instance} (ho : o.Faithful)
    (hinst : s.instance? o.outer = some i) (hground : n ≠ groundNode)
    (hleft : n ∉ (i.proto.nodes.zip o.outer.nodes).map Prod.fst) :
    s.flatNode o n = flatName (n :: o.path) := by
  have helement := (Setting.instance?_eq_some_iff.1 hinst).1
  rw [← helement] at hleft
  rw [Setting.flatNode_of_instance? hinst, i.node_of_left hground hleft, ho.rename helement]

/-- A terminal has the flat name of its net as its node. -/
theorem Connects.getElem?_nodes {k : Nat} {net : List String} (h : Connects s root o k net) :
    o.outer.nodes[k]? = some (flatName net) := by
  induction h with
  | top ho hk =>
    obtain ⟨e, -, rfl⟩ := List.mem_map.1 ho
    exact hk
  | @ground o c k hc hk =>
    rw [Setting.getElem?_nodes_of_mem_inside hc hk, s.flatNode_ground o]
    rfl
  | formal hinst hc hk hground hj hlast _ ih =>
    rw [Setting.getElem?_nodes_of_mem_inside hc hk, Setting.flatNode_of_last hinst hground hj hlast,
      ← (List.getElem?_zip_eq_some.1 hj).2, ih]
  | own ho hc hk hn =>
    rw [Setting.getElem?_nodes_of_mem_inside hc hk,
      Setting.flatNode_of_mem_ownNodes (Setting.faithful_of_mem_expanded ho) hn]

/-- A terminal that an interface leaves over has the flat name of its net as its node, too. -/
theorem Dangles.getElem?_nodes {k : Nat} {net : List String} (h : Dangles s root o k net) :
    o.outer.nodes[k]? = some (flatName net) := by
  induction h with
  | here ho hinst hc hk hground _ hleft =>
    rw [Setting.getElem?_nodes_of_mem_inside hc hk,
      Setting.flatNode_of_left (Setting.faithful_of_mem_expanded ho) hinst hground hleft]
  | formal hinst hc hk hground hj hlast _ ih =>
    rw [Setting.getElem?_nodes_of_mem_inside hc hk, Setting.flatNode_of_last hinst hground hj hlast,
      ← (List.getElem?_zip_eq_some.1 hj).2, ih]

/-- A terminal on a net has the net's flat name as its node. -/
theorem OnNet.getElem?_nodes {k : Nat} {net : List String} (h : OnNet s root o k net) :
    o.outer.nodes[k]? = some (flatName net) :=
  h.elim Connects.getElem?_nodes Dangles.getElem?_nodes

/-! ## The net of a terminal -/

/-- An interface node with a terminal of the instance has a last one. -/
theorem exists_last {joined : List (String × String)} (h : n ∈ joined.map Prod.fst) :
    ∃ (j : Nat) (actual : String), joined[j]? = some (n, actual) ∧
      ∀ (j' : Nat) (other : String), j < j' → joined[j']? ≠ some (n, other) := by
  induction joined with
  | nil => exact absurd h List.not_mem_nil
  | cons entry rest ih =>
    by_cases hrest : n ∈ rest.map Prod.fst
    · obtain ⟨j, actual, hj, hlast⟩ := ih hrest
      refine ⟨j + 1, actual, hj, fun j' other hlt => ?_⟩
      cases j' with
      | zero => exact absurd hlt (Nat.not_lt_zero _)
      | succ j' => exact hlast j' other (Nat.lt_of_succ_lt_succ hlt)
    · have hentry : n = entry.1 := (List.mem_cons.1 h).resolve_right hrest
      refine ⟨0, entry.2, by rw [hentry]; rfl, fun j' other hlt heq => ?_⟩
      cases j' with
      | zero => exact absurd hlt (Nat.lt_irrefl 0)
      | succ j' => exact hrest (List.mem_map.2 ⟨_, List.mem_of_getElem? heq, rfl⟩)

/-- If the terminals of an instance are on nets, so are the terminals of what stands inside it. -/
theorem exists_onNet_of_mem_inside (ho : o ∈ s.expanded root)
    (hlength : o.outer.nodes.length = o.inner.nodes.length)
    (hnets : ∀ k < o.inner.nodes.length, ∃ net, OnNet s root o k net) (hc : c ∈ s.inside o) :
    ∀ k < c.inner.nodes.length, ∃ net, OnNet s root c k net := by
  intro k hlt
  obtain ⟨n, hk⟩ : ∃ n, c.inner.nodes[k]? = some n := ⟨_, List.getElem?_eq_getElem hlt⟩
  by_cases hground : n = groundNode
  · exact ⟨_, .inl (.ground hc (hground ▸ hk))⟩
  obtain ⟨i, hinst, copy, hcopy, hplace⟩ := Setting.exists_copy_of_mem_inside hc
  by_cases hjoined : n ∈ (i.proto.nodes.zip o.outer.nodes).map Prod.fst
  · -- the way goes on at the terminal that the interface node stands for
    obtain ⟨j, actual, hj, hlast⟩ := exists_last hjoined
    have hbound : j < o.inner.nodes.length := by
      rw [← hlength]
      exact (List.getElem?_eq_some_iff.1 (List.getElem?_zip_eq_some.1 hj).2).1
    obtain ⟨net, hnet⟩ := hnets j hbound
    rcases hnet with hnet | hnet
    · exact ⟨net, .inl (.formal hinst hc hk hground hj hlast hnet)⟩
    · exact ⟨net, .inr (.formal hinst hc hk hground hj hlast hnet)⟩
  by_cases hformal : n ∈ i.proto.nodes
  · exact ⟨_, .inr (.here ho hinst hc hk hground hformal hjoined)⟩
  · refine ⟨_, .inl (.own ho hc hk ?_)⟩
    have hinner : c.inner ∈ i.proto.elements.values := by
      rw [hplace]
      exact (Instance.exists_eq_copy_of_mem_copies hcopy).1
    have hnode : n ∈ i.proto.elements.values.flatMap Element.nodes :=
      List.mem_flatMap_of_mem hinner (List.mem_of_getElem? hk)
    unfold Setting.ownNodes
    rw [hinst]
    refine List.mem_filter.2 ⟨Std.ExtTreeSet.mem_toList.2 (NameSet.mem_ofList.2 hnode), ?_⟩
    simp [hground, hformal]

/-! ## Places -/

/-- What the hierarchy says of a place.  It is an element of the netlist or an element of the
sub-circuit of an instance, whose parameters then are what the expressions of the sub-circuit stand
for in that instance.  Its terminals are those of the element, each at the flat name of its net.  If
it is an instance, the elements of its sub-circuit stand inside it, each of them once. -/
structure Setting.Derives (s : Setting) (root : Definition) (o : Occurrence) : Prop where
  faithful : o.Faithful
  source : (∃ e ∈ root.elements.values, o = ⟨[], e, e⟩) ∨
    ∃ around ∈ s.places root, ∃ i, s.instance? around.outer = some i ∧ o.around = around.path ∧
      o.inner ∈ i.proto.elements.values ∧ i.ParamsMean s.globals o.inner.params o.outer.params
  terminals : o.outer.nodes.length = o.inner.nodes.length
  nodes : ∀ k < o.inner.nodes.length, ∃ net, OnNet s root o k net ∧
    o.outer.nodes[k]? = some (flatName net)
  inside : ∀ i, s.instance? o.outer = some i →
    (s.inside o).map Occurrence.inner = i.proto.elements.values

/-- Inside an instance the elements of its sub-circuit stand, in their order. -/
theorem Setting.map_inner_inside {i : Instance} (hinst : s.instance? o.outer = some i) :
    (s.inside o).map Occurrence.inner = i.proto.elements.values := by
  rw [Setting.inside_of_instance? hinst, List.map_map]
  exact i.map_fst_copyAll s.globals _ _

/-- What stands inside an instance has as many terminals as the element that it copies. -/
theorem Setting.length_nodes_of_mem_inside (hc : c ∈ s.inside o) :
    c.outer.nodes.length = c.inner.nodes.length := by
  rw [Setting.nodes_of_mem_inside hc, List.length_map]

/-- Every terminal of an instance of the netlist is on a net. -/
theorem exists_onNet_of_mem_expanded (ho : o ∈ s.expanded root) :
    o.outer.nodes.length = o.inner.nodes.length ∧
      ∀ k < o.inner.nodes.length, ∃ net, OnNet s root o k net := by
  refine Setting.forall_mem_instancesFrom (P := fun o => o.outer.nodes.length =
    o.inner.nodes.length ∧ ∀ k < o.inner.nodes.length, ∃ net, OnNet s root o k net) ?_ ?_ o ho
  · intro o htop
    have htop := List.mem_of_mem_filter htop
    refine ⟨?_, fun k hk => ⟨_, .inl (.top htop (List.getElem?_eq_getElem hk))⟩⟩
    obtain ⟨e, -, rfl⟩ := List.mem_map.1 htop
    rfl
  · intro o ho hnets c hc _
    exact ⟨Setting.length_nodes_of_mem_inside hc,
      exists_onNet_of_mem_inside ho hnets.1 hnets.2 hc⟩

/-- Every instance of the netlist is one of its places. -/
theorem Setting.expanded_subset_places (s : Setting) (root : Definition) :
    s.expanded root ⊆ s.places root :=
  Setting.forall_mem_instancesFrom
    (fun _ ho => List.mem_append_left _ (List.mem_of_mem_filter ho))
    (fun o ho _ _ hc _ => List.mem_append_right _ (List.mem_flatMap.2 ⟨o, ho, hc⟩))

/-- Every place is what the hierarchy says of it. -/
theorem Setting.derives_of_mem_places (ho : o ∈ s.places root) : s.Derives root o := by
  have hinside : ∀ i, s.instance? o.outer = some i →
      (s.inside o).map Occurrence.inner = i.proto.elements.values :=
    fun _ hinst => Setting.map_inner_inside hinst
  rcases List.mem_append.1 ho with htop | hbelow
  · obtain ⟨e, he, rfl⟩ := List.mem_map.1 htop
    exact ⟨faithful_of_mem_tops htop, .inl ⟨e, he, rfl⟩, rfl,
      fun k hk => ⟨[e.nodes[k]], .inl (.top htop (List.getElem?_eq_getElem hk)),
        List.getElem?_eq_getElem hk⟩, hinside⟩
  · obtain ⟨around, haround, hc⟩ := List.mem_flatMap.1 hbelow
    obtain ⟨i, hinst, copy, hcopy, rfl⟩ := Setting.exists_copy_of_mem_inside hc
    obtain ⟨hlength, hnets⟩ := exists_onNet_of_mem_expanded haround
    refine ⟨(Setting.faithful_of_mem_expanded haround).inside hc, ?_,
      Setting.length_nodes_of_mem_inside hc, fun k hk => ?_, hinside⟩
    · exact .inr ⟨around, s.expanded_subset_places root haround, i, hinst, rfl,
        (Instance.exists_eq_copy_of_mem_copies hcopy).1, Instance.paramsMean_of_mem_copies hcopy⟩
    · obtain ⟨net, hnet⟩ := exists_onNet_of_mem_inside haround hlength hnets hc k hk
      exact ⟨net, hnet, hnet.getElem?_nodes⟩

section Handed

variable {param name : String} {value : Expr}

/-- What an instance sets a parameter to is the value of every parameter inside it that is this
symbol. -/
theorem Setting.Derives.getElem?_params_of_actual (h : s.Derives root o) (hinside : o.around ≠ [])
    (hinner : o.inner.params[param]? = some (.sym name)) (hreserved : isReserved name = false)
    (hactual : ∀ around ∈ s.places root, around.path = o.around →
      around.outer.params[name]? = some value) : o.outer.params[param]? = some value := by
  rcases h.source with ⟨e, -, rfl⟩ | ⟨around, haround, i, hinst, hpath, -, hparams⟩
  · exact absurd rfl hinside
  obtain ⟨v, hv, hmeans⟩ := hparams.exists_means hinner
  have hset : i.element.params[name]? = some value := by
    rw [(Setting.instance?_eq_some_iff.1 hinst).1]
    exact hactual around haround hpath.symm
  rw [hv, (Instance.meansExpr_sym_iff.1 hmeans).eq_of_actual hreserved hset]

/-- A symbol that is free inside an instance has the flat name of its way. -/
theorem Setting.Derives.getElem?_params_of_free (h : s.Derives root o) (hinside : o.around ≠ [])
    (hinner : o.inner.params[param]? = some (.sym name))
    (hfree : ∀ around ∈ s.places root, around.path = o.around → ∀ i,
      s.instance? around.outer = some i → i.Free s.globals name) :
    o.outer.params[param]? = some (.sym (flatName (name :: o.around))) := by
  rcases h.source with ⟨e, -, rfl⟩ | ⟨around, haround, i, hinst, hpath, -, hparams⟩
  · exact absurd rfl hinside
  obtain ⟨v, hv, hmeans⟩ := hparams.exists_means hinner
  have hrename := (Setting.derives_of_mem_places haround).faithful.rename
    (Setting.instance?_eq_some_iff.1 hinst).1 name
  have hfree := hfree around haround hpath.symm i hinst
  rw [hv, hfree.means_iff.1 (Instance.meansExpr_sym_iff.1 hmeans), hrename, hpath]

end Handed

end Expansion

end FlatNet
