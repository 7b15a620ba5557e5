import FlatNet.Proofs.Accepted
import FlatNet.Proofs.Expansion.FlatName
import FlatNet.Proofs.Expansion.Paths
import FlatNet.Proofs.Expansion.Terminals

/-!
# Nets

The nodes of a sub-circuit that are neither ground nor in its interface become nodes of their own
in every instance, under names that end with the name of the instance.  Only the names of elements
are checked for collisions, so two of these nodes may get one name, or the name of a node that the
netlist itself writes.  `netsSeparate_iff` says when this does not happen: when the ways to the
nodes break into different pieces at underscores.  Then, and only then, terminals with one flat
node are on one net of the hierarchy.
-/

set_option autoImplicit false

namespace FlatNet

open Expansion

namespace Expansion

variable {s : Setting} {root : Definition} {o : Occurrence}

/-- The net of a terminal is a node that the netlist writes, ground, or an own node of an
instance. -/
theorem Connects.cases_net {k : Nat} {net : List String} (h : Connects s root o k net) :
    (∃ n, net = [n] ∧ (n = groundNode ∨ n ∈ root.elements.values.flatMap Element.nodes)) ∨
      ∃ o' ∈ s.expanded root, ∃ n ∈ s.ownNodes o', net = n :: o'.path := by
  induction h with
  | top ho hk =>
    obtain ⟨e, he, rfl⟩ := List.mem_map.1 ho
    exact .inl ⟨_, rfl, .inr (List.mem_flatMap_of_mem he (List.mem_of_getElem? hk))⟩
  | ground _ _ => exact .inl ⟨groundNode, rfl, .inl rfl⟩
  | formal _ _ _ _ _ _ _ ih => exact ih
  | own ho _ _ hn => exact .inr ⟨_, ho, _, hn, rfl⟩

/-- Ground has no underscore in its name, unlike every own node of an instance. -/
theorem flatName_ne_ground {name : String} {path : List String} (h : path ≠ []) :
    flatName (name :: path) ≠ groundNode := by
  intro heq
  have hmem : '_' ∈ (flatName (name :: path)).toList := by
    rw [flatName_cons name h]
    simp
  rw [heq] at hmem
  exact absurd hmem (by decide)

end Expansion

namespace Workspace

/-- The nodes that the netlist itself writes. -/
def topNodes (w : Workspace) : List String := w.netlist.elements.values.flatMap Element.nodes

/-- The own nodes of all instances, each with its instance. -/
def ownNodes (w : Workspace) : List (Occurrence × String) :=
  w.expanded.flatMap fun o => (w.expansionSetting.ownNodes o).map fun n => (o, n)

/-- The flat name of an own node. -/
def flatNode (w : Workspace) (x : Occurrence × String) : String :=
  w.expansionSetting.flatNode x.1 x.2

/-- The own nodes of instances have flat names that differ from each other and from all nodes that
the netlist writes. -/
structure NetsSeparate (w : Workspace) : Prop where
  own : (w.ownNodes.map w.flatNode).Nodup
  top : ∀ x ∈ w.ownNodes, w.flatNode x ∉ w.topNodes

/-- The ways to the own nodes of instances break into pieces at underscores that differ from each
other and from those of all nodes that the netlist writes. -/
structure PiecesDiffer (w : Workspace) : Prop where
  own : (w.ownNodes.map fun x => pieces (x.2 :: x.1.path)).Nodup
  top : ∀ x ∈ w.ownNodes, ∀ n ∈ w.topNodes, pieces (x.2 :: x.1.path) ≠ pieces [n]

/-- Terminals with one flat node are on one net. -/
def NetsApart (w : Workspace) : Prop :=
  ∀ (o o' : Occurrence) (k k' : Nat) (net net' : List String),
    Connects w.expansionSetting w.netlist o k net →
    Connects w.expansionSetting w.netlist o' k' net' →
    o.outer.nodes[k]? = o'.outer.nodes[k']? → net = net'

variable {w : Workspace}

/-- An own node of a sub-circuit gets the name of its place in the hierarchy. -/
theorem flatNode_of_mem_ownNodes {x : Occurrence × String} (hx : x ∈ w.ownNodes) :
    w.flatNode x = flatName (x.2 :: x.1.path) := by
  obtain ⟨o, ho, hx⟩ := List.mem_flatMap.1 hx
  obtain ⟨n, hn, rfl⟩ := List.mem_map.1 hx
  exact Setting.flatNode_of_mem_ownNodes (Setting.faithful_of_mem_expanded ho) hn

/-- Flat names of own nodes differ exactly if the pieces of the ways do. -/
theorem separate_iff_differ (w : Workspace) : w.NetsSeparate ↔ w.PiecesDiffer := by
  have hpair : ∀ x ∈ w.ownNodes, ∀ y ∈ w.ownNodes,
      (w.flatNode x ≠ w.flatNode y ↔ pieces (x.2 :: x.1.path) ≠ pieces (y.2 :: y.1.path)) := by
    intro x hx y hy
    rw [flatNode_of_mem_ownNodes hx, flatNode_of_mem_ownNodes hy]
    exact not_congr (flatName_eq_iff (List.cons_ne_nil _ _) (List.cons_ne_nil _ _))
  have htop : ∀ x ∈ w.ownNodes, ∀ n : String,
      (w.flatNode x = n ↔ pieces (x.2 :: x.1.path) = pieces [n]) := by
    intro x hx n
    rw [flatNode_of_mem_ownNodes hx]
    exact flatName_eq_iff (List.cons_ne_nil _ _) (List.cons_ne_nil n [])
  constructor
  · intro h
    refine ⟨?_, fun x hx n hn heq => ?_⟩
    · have hnames := List.pairwise_map.1 h.own
      exact List.pairwise_map.2
        ((List.Pairwise.iff_of_mem fun hx hy => hpair _ hx _ hy).1 hnames)
    · exact h.top x hx (((htop x hx n).2 heq) ▸ hn)
  · intro h
    refine ⟨?_, fun x hx hmem => ?_⟩
    · have hways := List.pairwise_map.1 h.own
      exact List.pairwise_map.2
        ((List.Pairwise.iff_of_mem fun hx hy => hpair _ hx _ hy).2 hways)
    · exact h.top x hx _ hmem ((htop x hx _).1 rfl)

/-- If flat names of own nodes differ, terminals with one flat node are on one net. -/
theorem NetsSeparate.netsApart (h : w.NetsSeparate) : w.NetsApart := by
  have hown : ∀ o ∈ w.expanded, ∀ n ∈ w.expansionSetting.ownNodes o, (o, n) ∈ w.ownNodes :=
    fun o ho n hn => List.mem_flatMap.2 ⟨o, ho, List.mem_map.2 ⟨n, hn, rfl⟩⟩
  -- an own node shares its flat name neither with a node of the netlist nor with ground
  have hmixed : ∀ n, (n = groundNode ∨ n ∈ w.topNodes) → ∀ o ∈ w.expanded,
      ∀ n' ∈ w.expansionSetting.ownNodes o, flatName [n] ≠ flatName (n' :: o.path) := by
    intro n hn o ho n' hn' heq
    rcases hn with rfl | hn
    · exact flatName_ne_ground (List.cons_ne_nil _ _) heq.symm
    · refine h.top (o, n') (hown o ho n' hn') ?_
      rw [flatNode_of_mem_ownNodes (hown o ho n' hn'), ← heq]
      exact hn
  intro o o' k k' net net' hnet hnet' hnode
  have hflat : flatName net = flatName net' := by
    rw [hnet.getElem?_nodes, hnet'.getElem?_nodes] at hnode
    exact Option.some.inj hnode
  rcases hnet.cases_net with ⟨n, rfl, hn⟩ | ⟨p, hp, n, hn, rfl⟩
  · rcases hnet'.cases_net with ⟨n', rfl, -⟩ | ⟨p', hp', n', hn', rfl⟩
    · exact congrArg (fun name => [name]) hflat
    · exact absurd hflat (hmixed n hn p' hp' n' hn')
  · rcases hnet'.cases_net with ⟨n', rfl, hn'⟩ | ⟨p', hp', n', hn', rfl⟩
    · exact absurd hflat.symm (hmixed n' hn' p hp n hn)
    · have heq : w.flatNode (p, n) = w.flatNode (p', n') := by
        rw [flatNode_of_mem_ownNodes (hown p hp n hn),
          flatNode_of_mem_ownNodes (hown p' hp' n' hn')]
        exact hflat
      have hsame := List.inj_on_of_nodup_map h.own (hown p hp n hn) (hown p' hp' n' hn') heq
      rw [(Prod.mk.inj hsame).1, (Prod.mk.inj hsame).2]

/-- The ways to the own nodes of instances differ. -/
theorem nodup_ways (h : w.Ready) : (w.ownNodes.map fun x => x.2 :: x.1.path).Nodup := by
  unfold ownNodes
  rw [List.map_flatMap, List.nodup_flatMap]
  refine ⟨fun o _ => ?_, ?_⟩
  · rw [List.map_map]
    refine List.Nodup.map (fun n n' heq => (List.cons.inj heq).1) ?_
    unfold Setting.ownNodes
    split
    · exact List.nodup_nil
    · exact NameSet.nodup_toList.filter _
  · refine (List.pairwise_map.1 h.nodup_path_expanded).imp fun {o o'} hne => ?_
    intro way hway hway'
    obtain ⟨x, hx, rfl⟩ := List.mem_map.1 hway
    obtain ⟨x', hx', heq⟩ := List.mem_map.1 hway'
    obtain ⟨n, -, rfl⟩ := List.mem_map.1 hx
    obtain ⟨n', -, rfl⟩ := List.mem_map.1 hx'
    exact hne (List.cons.inj heq).2.symm

/-- Every own node is at a terminal inside its instance. -/
theorem exists_connects_of_mem_ownNodes {x : Occurrence × String} (hx : x ∈ w.ownNodes) :
    ∃ c k, Connects w.expansionSetting w.netlist c k (x.2 :: x.1.path) := by
  obtain ⟨o, ho, hx⟩ := List.mem_flatMap.1 hx
  obtain ⟨n, hn, rfl⟩ := List.mem_map.1 hx
  have hown := hn
  unfold Setting.ownNodes at hn
  cases hinst : w.expansionSetting.instance? o.outer with
  | none =>
    rw [hinst] at hn
    exact absurd hn List.not_mem_nil
  | some i =>
    rw [hinst] at hn
    have hlisted := Std.ExtTreeSet.mem_toList.1 (List.mem_of_mem_filter hn)
    obtain ⟨e, he, hnode⟩ := List.mem_flatMap.1 (NameSet.mem_ofList.1 hlisted)
    obtain ⟨k, hk⟩ := List.mem_iff_getElem?.1 hnode
    have hfst : (i.copies w.expansionSetting.globals).map Prod.fst = i.proto.elements.values :=
      i.map_fst_copyAll _ _ _
    rw [← hfst] at he
    obtain ⟨copy, hcopy, rfl⟩ := List.mem_map.1 he
    refine ⟨⟨o.path, copy.1, copy.2⟩, k, Connects.own ho ?_ hk hown⟩
    rw [Setting.inside_of_instance? hinst]
    exact List.mem_map_of_mem hcopy

/-- If terminals with one flat node are on one net, flat names of own nodes differ. -/
theorem NetsApart.netsSeparate (h : w.Ready) (hapart : w.NetsApart) : w.NetsSeparate := by
  refine ⟨?_, fun x hx hmem => ?_⟩
  · refine List.Nodup.map_on (fun x hx y hy heq => ?_) ((nodup_ways h).of_map _)
    obtain ⟨c, k, hnet⟩ := exists_connects_of_mem_ownNodes hx
    obtain ⟨c', k', hnet'⟩ := exists_connects_of_mem_ownNodes hy
    have hnodes : c.outer.nodes[k]? = c'.outer.nodes[k']? := by
      rw [hnet.getElem?_nodes, hnet'.getElem?_nodes, ← flatNode_of_mem_ownNodes hx,
        ← flatNode_of_mem_ownNodes hy, heq]
    exact List.inj_on_of_nodup_map (nodup_ways h) hx hy (hapart c c' k k' _ _ hnet hnet' hnodes)
  · obtain ⟨e, he, hnode⟩ := List.mem_flatMap.1 hmem
    obtain ⟨j, hj⟩ := List.mem_iff_getElem?.1 hnode
    obtain ⟨c, k, hnet⟩ := exists_connects_of_mem_ownNodes hx
    have htop : Connects w.expansionSetting w.netlist ⟨[], e, e⟩ j [w.flatNode x] :=
      .top (List.mem_map_of_mem he) hj
    have hnodes : c.outer.nodes[k]? = e.nodes[j]? := by
      rw [hnet.getElem?_nodes, ← flatNode_of_mem_ownNodes hx, hj]
    have hsame := hapart c ⟨[], e, e⟩ k j _ _ hnet htop hnodes
    -- the way to an own node has at least two names
    exact absurd (List.cons.inj hsame).2 (List.cons_ne_nil _ _)

/-- Without underscores in the names of instances and nodes the own nodes of instances keep
apart. -/
theorem netsSeparate_of_no_underscore (h : w.Ready)
    (hways : ∀ x ∈ w.ownNodes, ∀ name ∈ x.2 :: x.1.path, '_' ∉ name.toList)
    (htop : ∀ n ∈ w.topNodes, '_' ∉ n.toList) : w.NetsSeparate := by
  have hpieces : ∀ x ∈ w.ownNodes,
      pieces (x.2 :: x.1.path) = (x.2 :: x.1.path).map String.toList :=
    fun x hx => pieces_of_forall_not_mem (hways x hx)
  refine (separate_iff_differ w).2 ⟨?_, fun x hx n hn heq => ?_⟩
  · rw [List.map_congr_left hpieces]
    have hnodup := (nodup_ways h).map
      (List.map_injective_iff.2 fun a b hab => String.toList_inj.1 hab)
    rwa [List.map_map] at hnodup
  · rw [hpieces x hx, pieces_of_forall_not_mem (List.forall_mem_singleton.2 (htop n hn))] at heq
    have hlength := congrArg List.length heq
    simp [Occurrence.path] at hlength

/-- The circuit of a netlist that is compiled without errors in a regular workspace, as all are that
come about, has the leaves among all places as its elements, with the flat nodes of what they copy.
The own nodes of instances keep apart from each other and from the nodes that the netlist writes
exactly if the ways to them break into different pieces, and exactly if terminals with one flat node
are on one net. -/
theorem netsSeparate_iff (h : w.Regular) (disk : Disk) (label text : String)
    (haccepted : (w.compile disk label text).2.errors = 0) :
    let r := w.prepare disk label text
    (w.compile disk label text).2.elements.toList.Perm
        ((r.places.filter Occurrence.isLeaf).map fun l => (flatName l.path, l.outer)) ∧
      (∀ o ∈ r.expanded, ∀ l ∈ r.expansionSetting.inside o,
        l.outer.nodes = l.inner.nodes.map (r.expansionSetting.flatNode o)) ∧
      (∀ x ∈ r.ownNodes, r.flatNode x = flatName (x.2 :: x.1.path)) ∧
      (r.NetsSeparate ↔ r.PiecesDiffer) ∧ (r.NetsSeparate ↔ r.NetsApart) := by
  obtain ⟨hready, hcircuit⟩ := ready_of_accepted h haccepted
  refine ⟨?_, fun o _ l hl => Setting.nodes_of_mem_inside hl,
    fun x hx => flatNode_of_mem_ownNodes hx, separate_iff_differ _,
    ⟨NetsSeparate.netsApart, NetsApart.netsSeparate hready⟩⟩
  rw [hcircuit, Circuit.elements_complete]
  exact hready.flatten_spec.1

/-- A netlist that writes the flat name of a node inside its instance. -/
def joinedText : String :=
  "t\n.subckt P in out\nR1 in a 1\nR2 a out 1\n.ends\nX1 1 0 P\nR5 a_X1 0 1\n.end\n"

set_option maxRecDepth 100000 in
/-- The netlist in which two nodes are joined is accepted. -/
theorem accepted_joined : (bare.compile Disk.empty "main.cir" joinedText).2.errors = 0 := by
  refine errors_compile_eq_zero ?_ ?_ ?_
  · decide +kernel
  · decide +kernel
  · exact contains_connectedNodes_flatten "R5" groundNode (by decide +kernel) (by decide +kernel)

/-- What is said of accepted netlists holds of this one. -/
theorem netsSeparate_iff_joined :
    bare.Regular ∧ (bare.compile Disk.empty "main.cir" joinedText).2.errors = 0 ∧
      ((bare.prepare Disk.empty "main.cir" joinedText).NetsSeparate ↔
        (bare.prepare Disk.empty "main.cir" joinedText).PiecesDiffer) := by
  have hregular : bare.Regular := regular_withBuiltin {} Library.regular_empty
  obtain ⟨-, -, -, hiff, -⟩ :=
    netsSeparate_iff hregular Disk.empty "main.cir" joinedText accepted_joined
  exact ⟨hregular, accepted_joined, hiff⟩

set_option maxRecDepth 100000 in
/-- Its own node of that name is joined with the node inside the instance. -/
theorem not_netsSeparate_joined :
    (bare.compile Disk.empty "main.cir" joinedText).2.errors = 0 ∧
      ¬(bare.prepare Disk.empty "main.cir" joinedText).NetsSeparate := by
  refine ⟨accepted_joined, fun h => ?_⟩
  have hany : ((bare.prepare Disk.empty "main.cir" joinedText).ownNodes.any fun x =>
      (bare.prepare Disk.empty "main.cir" joinedText).topNodes.contains
        ((bare.prepare Disk.empty "main.cir" joinedText).flatNode x)) = true := by decide +kernel
  -- the own node `a` of `X1` is called `a_X1`, as `R5` calls a node
  obtain ⟨x, hx, hmem⟩ := List.any_eq_true.1 hany
  exact h.top x hx (List.contains_iff_mem.1 hmem)

end Workspace

end FlatNet
