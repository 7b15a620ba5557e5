import FlatNet.Proofs.Expansion.Recorded
import FlatNet.Proofs.Nets

/-!
# Ports

The nodes of a sub-circuit's interface are connected to the nodes of an instance by their position:
`expandInstance_ports` says so of every instance that has as many nodes as the interface.  Two kinds
of positions are no ports.  Ground is global, so a terminal at ground stays there, whatever the
instance has at the position of ground in its interface.  And an interface that names a node twice
says nothing about the position of either.

Through the ports terminals hang together over any number of levels (`Through`), and they have one
flat node.
-/

set_option autoImplicit false

namespace FlatNet

namespace Instance

/-- The interface has the node `n` at position `k`, and there only; it is not ground. -/
structure IsPort (i : Instance) (k : Nat) (n : String) : Prop where
  formal : i.proto.nodes[k]? = some n
  inner : n ≠ groundNode
  single : ∀ k', i.proto.nodes[k']? = some n → k' = k

variable {i : Instance} {k : Nat} {n actual : String}

/-- A port is connected to the node that the instance has at its position. -/
theorem IsPort.node_eq (h : i.IsPort k n) (hactual : i.element.nodes[k]? = some actual) :
    i.node n = actual := by
  refine i.node_of_last h.inner (List.getElem?_zip_eq_some.2 ⟨h.formal, hactual⟩) ?_
  intro k' other hk' heq
  have hsame := h.single k' (List.getElem?_zip_eq_some.1 heq).1
  omega

/-- An instance with as many nodes as the interface has one for every port. -/
theorem IsPort.exists_actual (h : i.IsPort k n)
    (hcount : i.proto.nodes.length = i.element.nodes.length) :
    ∃ actual, i.element.nodes[k]? = some actual := by
  have hlt : k < i.element.nodes.length := by
    rw [← hcount]
    exact (List.getElem?_eq_some_iff.1 h.formal).1
  exact ⟨_, List.getElem?_eq_getElem hlt⟩

/-- A copy has, terminal by terminal, the nodes that the element's nodes are outside. -/
theorem nodes_of_mem_copies {g : Globals} {c : Element × Element} (hc : c ∈ i.copies g) :
    c.2.nodes = c.1.nodes.map i.node := by
  obtain ⟨-, before, heq⟩ := exists_eq_copy_of_mem_copies hc
  rw [heq, nodes_copy]

/-- Ground is ground inside every instance. -/
@[simp] theorem node_ground (i : Instance) : i.node groundNode = groundNode := if_pos rfl

end Instance

namespace Expansion

/-- Every expansion of an instance that has as many nodes as its sub-circuit's interface connects
the ports by position.  What comes into the circuit is a copy of one of the sub-circuit's elements,
each of which has one; a terminal at a port of the interface is copied to the node that the instance
has at the same position, and a terminal at ground stays there. -/
theorem expandInstance_ports (g : Globals) (i : Instance) (p : Progress)
    (hcount : i.proto.nodes.length = i.element.nodes.length) :
    (∀ e ∈ (expandInstance g i p).circuit.elements.values,
        (∃ c ∈ i.copies g, e = c.2) ∨ e ∈ p.circuit.elements.values) ∧
      (i.copies g).map Prod.fst = i.proto.elements.values ∧
      (∀ (k : Nat) (n : String), i.IsPort k n → ∃ actual, i.element.nodes[k]? = some actual ∧
        ∀ c ∈ i.copies g, ∀ t : Nat, c.1.nodes[t]? = some n → c.2.nodes[t]? = some actual) ∧
      ∀ c ∈ i.copies g, ∀ t : Nat,
        c.1.nodes[t]? = some groundNode → c.2.nodes[t]? = some groundNode := by
  refine ⟨?_, i.map_fst_copyAll g _ _, ?_, ?_⟩
  · rw [expandInstance_eq]
    exact values_addCopies i (i.copies g) p
  · intro k n hport
    obtain ⟨actual, hactual⟩ := hport.exists_actual hcount
    refine ⟨actual, hactual, fun c hc t ht => ?_⟩
    rw [Instance.nodes_of_mem_copies hc, List.getElem?_map, ht, Option.map_some,
      hport.node_eq hactual]
  · intro c hc t ht
    rw [Instance.nodes_of_mem_copies hc, List.getElem?_map, ht, Option.map_some, i.node_ground]

/-- The terminal `t` of the place `d` hangs at the terminal `k` of the place `o` around it: from one
instance to the next it is at a port of the interface. -/
inductive Through (s : Setting) (o : Occurrence) (k : Nat) : Occurrence → Nat → Prop
  | here : Through s o k o k
  | port {c d : Occurrence} {i : Instance} {j t : Nat} {n : String} (hc : Through s o k c j)
      (hinst : s.instance? c.outer = some i)
      (hcount : i.proto.nodes.length = i.element.nodes.length) (hport : i.IsPort j n)
      (hd : d ∈ s.inside c) (ht : d.inner.nodes[t]? = some n) : Through s o k d t

/-- Terminals that hang together through ports have one flat node, however many levels lie
between. -/
theorem Through.getElem?_nodes {s : Setting} {o d : Occurrence} {k t : Nat}
    (h : Through s o k d t) : d.outer.nodes[t]? = o.outer.nodes[k]? := by
  induction h with
  | here => rfl
  | @port c d i j t n _ hinst hcount hport hd ht ih =>
    obtain ⟨actual, hactual⟩ := hport.exists_actual hcount
    rw [← ih, Setting.getElem?_nodes_of_mem_inside hd ht, Setting.flatNode_of_instance? hinst,
      hport.node_eq hactual, ← (Setting.instance?_eq_some_iff.1 hinst).1, hactual]

end Expansion

open Expansion

namespace Instance

variable {i : Instance} {g : Globals}

/-- Every position of the interface, also one that is no port, is connected to the node that the
instance has there. -/
def Positional (i : Instance) (g : Globals) : Prop :=
  i.proto.nodes.length = i.element.nodes.length → ∀ (k : Nat) (n actual : String),
    i.proto.nodes[k]? = some n → i.element.nodes[k]? = some actual →
      ∀ c ∈ i.copies g, ∀ t : Nat, c.1.nodes[t]? = some n → c.2.nodes[t]? = some actual

/-- A terminal at position `k` of the interface is not copied to the node that the instance has
there. -/
def misplaces (i : Instance) (g : Globals) (k : Nat) : Bool :=
  i.proto.nodes.length == i.element.nodes.length && (i.copies g).any fun c =>
    (List.range c.1.nodes.length).any fun t =>
      c.1.nodes[t]? == i.proto.nodes[k]? && c.2.nodes[t]? != i.element.nodes[k]?

/-- An instance that misplaces a node is not positional. -/
theorem not_positional_of_misplaces {k : Nat} (h : i.misplaces g k = true) :
    ¬i.Positional g := by
  intro hpositional
  obtain ⟨hcount, hany⟩ := Bool.and_eq_true_iff.1 h
  obtain ⟨c, hc, hany⟩ := List.any_eq_true.1 hany
  obtain ⟨t, ht, hboth⟩ := List.any_eq_true.1 hany
  obtain ⟨hformal, hmissed⟩ := Bool.and_eq_true_iff.1 hboth
  have hcount := eq_of_beq hcount
  have hterminal := List.getElem?_eq_getElem (List.mem_range.1 ht)
  have hformal := (eq_of_beq hformal).symm.trans hterminal
  have hactual : k < i.element.nodes.length := by
    rw [← hcount]
    exact (List.getElem?_eq_some_iff.1 hformal).1
  have hactual := List.getElem?_eq_getElem hactual
  have hcopied := hpositional hcount k _ _ hformal hactual c hc t hterminal
  rw [hcopied, hactual, bne_self_eq_false] at hmissed
  exact Bool.false_ne_true hmissed

end Instance

namespace Workspace

/-- In the circuit of an accepted netlist every terminal that hangs at a terminal of an instance has
the node that the instance has there. -/
theorem nodes_of_through {w : Workspace} {disk : Disk} {label text : String} (h : w.Regular)
    (haccepted : (w.compile disk label text).2.errors = 0) {o d : Occurrence} {k t : Nat}
    (hd : d ∈ (w.prepare disk label text).places) (hleaf : d.isLeaf = true)
    (hthrough : Through (w.prepare disk label text).expansionSetting o k d t) :
    ∃ e, (w.compile disk label text).2.elements[flatName d.path]? = some e ∧
      e.nodes[t]? = o.outer.nodes[k]? :=
  ⟨d.outer, (getElem?_elements_of_accepted h haccepted).2 ⟨d, hd, hleaf, rfl, rfl⟩,
    hthrough.getElem?_nodes⟩

/-- Every instance of the netlist has all positions of its interface connected. -/
def Positional (w : Workspace) : Prop :=
  ∀ o i, o ∈ w.expanded → w.expansionSetting.instance? o.outer = some i → i.Positional w.globals

/-- A netlist with an instance that misplaces a node is not positional. -/
theorem not_positional_of_any {w : Workspace} {k : Nat}
    (h : (w.expanded.any fun o => (w.expansionSetting.instance? o.outer).any fun i =>
      i.misplaces w.globals k) = true) : ¬w.Positional := by
  intro hpositional
  obtain ⟨o, i, ho, hi, hmisplaces⟩ := exists_instance_of_any h
  exact Instance.not_positional_of_misplaces hmisplaces (hpositional o i ho hi)

/-- A netlist with ground in the interface of its sub-circuit. -/
def groundedText : String :=
  "t\n.subckt P 0 a\nR1 0 a 1\n.ends\nX1 1 2 P\nR2 1 0 1\nR3 2 0 1\n.end\n"

/-- A netlist with one node twice in the interface of its sub-circuit. -/
def doubledText : String :=
  "t\n.subckt P a a\nR1 a 0 1\n.ends\nX1 1 2 P\nR2 1 0 1\nR3 2 0 1\n.end\n"

/-- A netlist when it has been read and resolved. -/
def settled (text : String) : Workspace := bare.prepare Disk.empty "main.cir" text

set_option maxRecDepth 100000 in
/-- Behind ground, which is no port, the interface has the port `a`, and the copy of the resistor
has the node `2` that the instance has at its position. -/
theorem expandInstance_ports_grounded : ∃ i : Instance,
    i.proto.nodes.length = i.element.nodes.length ∧ i.IsPort 1 "a" ∧
      i.element.nodes[1]? = some "2" ∧
      ∃ c ∈ i.copies (settled groundedText).globals,
        c.1.nodes[1]? = some "a" ∧ c.2.nodes[1]? = some "2" := by
  have hany : ((settled groundedText).expanded.any fun o =>
      ((settled groundedText).expansionSetting.instance? o.outer).any fun i =>
        i.proto.nodes == ["0", "a"] && i.element.nodes == ["1", "2"] &&
          i.proto.elements.values.any fun e => e.nodes[1]? == some "a") = true := by decide +kernel
  obtain ⟨-, i, -, -, htest⟩ := exists_instance_of_any hany
  obtain ⟨hnodes, hterminal⟩ := Bool.and_eq_true_iff.1 htest
  obtain ⟨hformal, hactual⟩ := Bool.and_eq_true_iff.1 hnodes
  have hformal := eq_of_beq hformal
  have hactual := eq_of_beq hactual
  obtain ⟨e, he, ht⟩ := List.any_eq_true.1 hterminal
  have hcount : i.proto.nodes.length = i.element.nodes.length := by rw [hformal, hactual]; rfl
  have hport : i.IsPort 1 "a" := by
    refine ⟨by rw [hformal]; rfl, by decide, fun k hk => ?_⟩
    rw [hformal] at hk
    match k, hk with
    | 1, _ => rfl
  obtain ⟨-, hcopied, hports, -⟩ := expandInstance_ports (settled groundedText).globals i
    (begin (settled groundedText).netlist) hcount
  obtain ⟨actual, hat, hcopies⟩ := hports 1 "a" hport
  rw [← hcopied] at he
  obtain ⟨c, hc, rfl⟩ := List.mem_map.1 he
  have hsecond : i.element.nodes[1]? = some "2" := by rw [hactual]; rfl
  obtain rfl : actual = "2" := Option.some.inj (hat.symm.trans hsecond)
  exact ⟨i, hcount, hport, hsecond, c, hc, eq_of_beq ht, hcopies c hc 1 (eq_of_beq ht)⟩

set_option maxRecDepth 100000 in
/-- Both netlists are accepted.  In one the resistor's terminal at the first node of the interface,
which is ground, is not at the first node of the instance, and in the other the terminal at the node
that is both is at the second node of the instance alone. -/
theorem not_positional_grounded_doubled :
    ((bare.compile Disk.empty "main.cir" groundedText).2.errors = 0 ∧
        ¬(settled groundedText).Positional) ∧
      (bare.compile Disk.empty "main.cir" doubledText).2.errors = 0 ∧
        ¬(settled doubledText).Positional := by
  refine ⟨⟨?_, not_positional_of_any (k := 0) (by decide +kernel)⟩, ?_,
    not_positional_of_any (k := 0) (by decide +kernel)⟩
  · refine errors_compile_eq_zero (by decide +kernel) (by decide +kernel) ?_
    exact contains_connectedNodes_flatten "R2" groundNode (by decide +kernel) (by decide +kernel)
  · refine errors_compile_eq_zero (by decide +kernel) (by decide +kernel) ?_
    exact contains_connectedNodes_flatten "R2" groundNode (by decide +kernel) (by decide +kernel)

end Workspace

end FlatNet
