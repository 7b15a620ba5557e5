import FlatNet.Disk.FileTree
import FlatNet.Proofs.Accepted
import FlatNet.Proofs.Expansion.Recorded
import FlatNet.Proofs.Library.Standard
import FlatNet.Proofs.Reading.Netlist

/-!
# Instances and what they are expanded against

An instance is checked against a sub-circuit when its name is resolved, and it keeps the address of
the sub-circuit.  In a netlist what stands at the address has the same interface when the instance
is expanded.  An instance in a library has been checked against the definitions of its own text,
while its address is one of the library, where another definition may have been kept.
-/

set_option autoImplicit false

namespace FlatNet

/-- The instance has as many nodes as its sub-circuit, and sets formal parameters only. -/
structure Instance.Fits (i : Instance) : Prop where
  nodes : i.element.nodes.length = i.proto.nodes.length
  params : ∀ name ∈ i.element.params, name ∈ i.proto.formals

/-- Whether an instance fits is a matter of its nodes, the names of its parameters, and the
interface of its sub-circuit. -/
theorem Instance.Fits.congr {i j : Instance} (h : i.Fits) (hlike : j.element.Like i.element)
    (hproto : j.proto.interface = i.proto.interface) : j.Fits where
  nodes := by
    rw [hlike.nodes, h.nodes]
    exact congrArg List.length (congrArg Prod.fst hproto).symm
  params := by
    intro name hname
    have hformals : j.proto.formals = i.proto.formals := congrArg Prod.snd hproto
    rw [hformals]
    exact h.params name ((hlike.params name).1 hname)

/-! ## What is checked -/

/-- The key stands for the definition: one at hand, or one of a library. -/
def Surroundings.Denotes (s : Surroundings) (defs : Forest) (key : PrototypeKey)
    (proto : Definition) : Prop :=
  (key.store = s.store ∧ defs[key.path]? = some proto) ∨
    (key.store = .user ∧ s.user.circuits[key.path]? = some proto) ∨
      (key.store = .builtin ∧ s.builtin.circuits[key.path]? = some proto)

section Denotes

variable {s : Surroundings} {defs : Forest} {proto : Definition}

/-- The address under which a sub-circuit is found stands for it. -/
theorem Surroundings.denotes_of_findSubcircuit? {owner name : String} {key : PrototypeKey}
    (h : s.findSubcircuit? defs owner name = some (key, proto)) : s.Denotes defs key proto := by
  unfold findSubcircuit? at h
  dsimp only at h
  rcases Option.or_eq_some_iff.1 h with h | ⟨-, h⟩
  · obtain ⟨scope, -, hscope⟩ := List.exists_of_findSome?_eq_some h
    obtain ⟨d, hd, heq⟩ := Option.map_eq_some_iff.1 hscope
    obtain ⟨rfl, rfl⟩ := Prod.mk.inj heq
    exact .inl ⟨rfl, hd⟩
  · rcases Option.or_eq_some_iff.1 h with h | ⟨-, h⟩
    · obtain ⟨d, hd, heq⟩ := Option.map_eq_some_iff.1 h
      obtain ⟨rfl, rfl⟩ := Prod.mk.inj heq
      exact .inr (.inl ⟨rfl, hd⟩)
    · obtain ⟨d, hd, heq⟩ := Option.map_eq_some_iff.1 h
      obtain ⟨rfl, rfl⟩ := Prod.mk.inj heq
      exact .inr (.inr ⟨rfl, hd⟩)

/-- The circuit of a primitive model stands in the built-in library. -/
theorem Surroundings.denotes_of_findExpansion? {expansion : String}
    (h : s.findExpansion? defs expansion = some proto) :
    s.Denotes defs ⟨.builtin, expansion⟩ proto := by
  unfold findExpansion? at h
  rcases Option.or_eq_some_iff.1 h with h | ⟨-, h⟩
  · exact .inr (.inr ⟨rfl, h⟩)
  · split at h
    · rename_i hstore
      exact .inl ⟨hstore.symm, h⟩
    · exact absurd h (by simp)

end Denotes

/-- If nothing is wrong with an instance, it fits a definition that its key stands for. -/
def Bound.Checked (b : Bound) (s : Surroundings) (defs : Forest) : Prop :=
  b.findings = [] → ∀ key, b.element.prototype? = some key →
    ∃ proto, s.Denotes defs key proto ∧ Instance.Fits ⟨b.element, proto⟩

namespace Element

variable {e : Element} {s : Surroundings} {defs : Forest} {p : Primitive}

/-- An instance with which nothing is wrong fits the sub-circuit. -/
theorem fits_of_instanceFindings {proto : Definition} (h : e.instanceFindings proto = []) :
    Instance.Fits ⟨e, proto⟩ := by
  unfold instanceFindings at h
  obtain ⟨hnodes, hparams⟩ := List.append_eq_nil_iff.1 h
  refine ⟨?_, fun name hname => ?_⟩
  · by_contra hne
    rw [if_neg fun heq => hne heq.symm] at hnodes
    exact absurd hnodes (List.cons_ne_nil _ _)
  · by_contra hnot
    have hmem : name ∈ e.params.keys.filter fun name => !proto.formals.contains name := by
      rw [List.mem_filter, Std.ExtTreeMap.mem_keys, Bool.not_eq_true',
        ← Bool.not_eq_true, Std.ExtTreeMap.contains_iff_mem]
      exact ⟨hname, hnot⟩
    rw [List.map_eq_nil_iff.1 hparams] at hmem
    exact absurd hmem List.not_mem_nil

/-- Binding an instance checks it against the sub-circuit that its address stands for. -/
theorem checked_bindPrototype {key : PrototypeKey} {proto : Definition}
    (h : s.Denotes defs key proto) : (e.bindPrototype key proto).Checked s defs := by
  intro hnil key' hkey
  obtain rfl : key = key' := Option.some.inj hkey
  obtain ⟨hnodes, hparams⟩ := fits_of_instanceFindings hnil
  exact ⟨proto, h, hnodes, hparams⟩

/-- What is refused is not bound unchecked. -/
theorem checked_refused (e : Element) (f : Finding) : Bound.Checked ⟨e, [f]⟩ s defs :=
  fun hnil => absurd hnil (List.cons_ne_nil _ _)

/-- Binding to a primitive model checks its circuit, if it has one. -/
theorem checked_bindPrimitive : (e.bindPrimitive s defs p).Checked s defs := by
  unfold bindPrimitive
  split
  · exact fun _ key hkey => absurd hkey (by simp [prototype?])
  · split
    · exact checked_refused e _
    · rename_i circuit hcircuit
      exact checked_bindPrototype (Surroundings.denotes_of_findExpansion? hcircuit)

/-- Binding to a named model checks the circuit of its base, if it has one. -/
theorem checked_bindModel (card : Option ModelCard) :
    (e.bindModel s defs p card).Checked s defs := by
  unfold bindModel
  split
  · exact fun hnil => checked_bindPrimitive (List.append_eq_nil_iff.1 hnil).2
  · exact checked_refused e _

/-- An instance that is bound without findings fits what its key stands for. -/
theorem checked_bind (e : Element) (s : Surroundings) (defs : Forest) (owner : Definition) :
    (e.bind s defs owner).Checked s defs := by
  have hbound := e.boundBy_bind s defs owner
  generalize e.bind s defs owner = b at hbound ⊢
  cases hbound with
  | circuit _ hfound => exact checked_bindPrototype (Surroundings.denotes_of_findSubcircuit? hfound)
  | primitive _ _ | card _ _ _ _ => exact checked_bindModel _
  | unknownCircuit _ _ | unknownModel _ _ _ | unknownBase _ _ => exact checked_refused e _

end Element

/-! ## What is expanded -/

namespace Workspace

variable {w : Workspace}

/-- The key stands for a definition of the workspace. -/
theorem prototype?_eq (w : Workspace) (key : PrototypeKey) :
    w.expansionSetting.prototype? key = (w.definitions key.store)[key.path]? := rfl

/-- Resolution keeps the nodes and formal parameters of all definitions. -/
theorem sameInterfaces_resolve (w : Workspace) :
    w.forest.SameInterfaces w.resolve.1.forest :=
  Forest.sameInterfaces_foldl_resolveAt w.forest.keys (w.forest, [])

/-- What a key stands for while a netlist is resolved has the same interface afterwards. -/
theorem exists_prototype_of_denotes {defs : Forest} (hsame : w.forest.SameInterfaces defs)
    {key : PrototypeKey} {proto : Definition}
    (h : (Loading.surroundings .netlist w).Denotes defs key proto) :
    ∃ proto', w.resolve.1.expansionSetting.prototype? key = some proto' ∧
      proto'.interface = proto.interface := by
  rcases h with ⟨hstore, hproto⟩ | ⟨hstore, hproto⟩ | ⟨hstore, hproto⟩
  · have hbefore := hsame key.path
    rw [hproto, ← w.sameInterfaces_resolve key.path] at hbefore
    obtain ⟨proto', hproto', hinterface⟩ := Option.map_eq_some_iff.1 hbefore.symm
    refine ⟨proto', ?_, hinterface⟩
    rw [prototype?_eq, hstore]
    exact hproto'
  · refine ⟨proto, ?_, rfl⟩
    rw [prototype?_eq, hstore]
    exact hproto
  · refine ⟨proto, ?_, rfl⟩
    rw [prototype?_eq, hstore]
    exact hproto

/-- In a netlist that has been resolved without errors every instance fits what it is expanded
against. -/
theorem fits_of_resolved (hunbound : ∀ (path : String) (d : Definition),
      w.forest[path]? = some d → d.Unbound)
    (herrors : w.resolve.1.forestErrors = 0) {path : String} {d : Definition}
    (hd : w.resolve.1.forest[path]? = some d) {e : Element} (he : e ∈ d.elements.values)
    {key : PrototypeKey} (hkey : e.prototype? = some key) :
    ∃ proto, w.resolve.1.expansionSetting.prototype? key = some proto ∧
      Instance.Fits ⟨e, proto⟩ := by
  rw [forest_resolve] at hd
  obtain ⟨d₀, defs, hd₀, rfl, hsub, hsame⟩ := Forest.resolve_spec hd
  obtain ⟨e₀, he₀, rfl⟩ := Definition.mem_values_resolved.1 he
  rw [forestErrors_resolve, Nat.add_eq_zero_iff] at herrors
  have hnil := Definition.findings_bindOne_eq_nil he₀ fun f hf =>
    isError_eq_false_of_errorCount_eq_zero herrors.2 f (hsub hf)
  have hbind : d₀.bindOne (Loading.surroundings .netlist w) defs e₀ =
      e₀.bind (Loading.surroundings .netlist w) defs d₀ := if_pos (hunbound path d₀ hd₀ e₀ he₀)
  rw [hbind] at hnil hkey ⊢
  obtain ⟨proto, hdenotes, hfits⟩ := Element.checked_bind e₀ _ defs d₀ hnil key hkey
  obtain ⟨proto', hproto', hinterface⟩ := exists_prototype_of_denotes hsame hdenotes
  exact ⟨proto', hproto', hfits.congr (.refl _) hinterface⟩

/-- Every instance that is expanded when the netlist is flattened fits the sub-circuit that it is
expanded against. -/
def ExpansionsFit (w : Workspace) : Prop :=
  ∀ i ∈ w.expansionSetting.expansions w.netlist, i.Fits

/-- In the definitions of libraries that the netlist uses all instances fit what their addresses
stand for. -/
def LibrariesFit (w : Workspace) : Prop :=
  ∀ (key : PrototypeKey) (d : Definition), key.store ≠ .netlist →
    w.expansionSetting.prototype? key = some d → w.expansionSetting.Uses w.netlist d →
    ∀ e ∈ d.elements.values, ∀ i, w.expansionSetting.instance? e = some i → i.Fits

/-- The definitions that a netlist uses are its own or those of libraries. -/
theorem cases_of_uses {d : Definition} (h : w.expansionSetting.Uses w.netlist d) :
    d = w.netlist ∨ (∃ path : String, w.forest[path]? = some d) ∨
      ∃ key : PrototypeKey, key.store ≠ .netlist ∧ w.expansionSetting.prototype? key = some d := by
  cases h with
  | root => exact .inl rfl
  | inner _ _ hi =>
    obtain ⟨-, key, -, hproto⟩ := Expansion.Setting.instance?_eq_some_iff.1 hi
    refine .inr ?_
    by_cases hstore : key.store = .netlist
    · rw [prototype?_eq, hstore] at hproto
      exact .inl ⟨key.path, hproto⟩
    · exact .inr ⟨key, hstore, hproto⟩

/-- A netlist still stands in the forest when it has been resolved. -/
theorem forest_resolve_root {root : Definition} (hroot : w.forest[""]? = some root) :
    w.resolve.1.forest[""]? = some w.resolve.1.netlist := by
  have hsame := w.sameInterfaces_resolve ""
  rw [hroot] at hsame
  obtain ⟨d, hd, -⟩ := Option.map_eq_some_iff.1 hsame
  unfold netlist
  rw [hd]
  rfl

section Resolved

variable (hunbound : ∀ (path : String) (d : Definition), w.forest[path]? = some d → d.Unbound)
  (herrors : w.resolve.1.forestErrors = 0)

include hunbound herrors

/-- In the definitions of a netlist that has been resolved without errors, instances fit. -/
theorem fits_of_instance? {path : String} {d : Definition}
    (hd : w.resolve.1.forest[path]? = some d) {e : Element} (he : e ∈ d.elements.values)
    {i : Instance} (hi : w.resolve.1.expansionSetting.instance? e = some i) : i.Fits := by
  obtain ⟨rfl, key, hkey, hproto⟩ := Expansion.Setting.instance?_eq_some_iff.1 hi
  obtain ⟨proto, hfound, hfits⟩ := fits_of_resolved hunbound herrors hd he hkey
  rw [hproto] at hfound
  obtain rfl := Option.some.inj hfound
  exact hfits

/-- All instances that are expanded fit if those in libraries do. -/
theorem expansionsFit_of_librariesFit {root : Definition} (hroot : w.forest[""]? = some root)
    (h : w.resolve.1.LibrariesFit) : w.resolve.1.ExpansionsFit := by
  intro i hi
  obtain ⟨hi, d, hd, e, he, hlike⟩ := Expansion.Setting.stems_of_mem_expansions hi
  have hsource := Expansion.Setting.instance?_of_like hlike hi
  have hfits : Instance.Fits ⟨e, i.proto⟩ := by
    rcases cases_of_uses hd with rfl | ⟨path, hpath⟩ | ⟨key, hstore, hkey⟩
    · exact fits_of_instance? hunbound herrors (forest_resolve_root hroot) he hsource
    · exact fits_of_instance? hunbound herrors hpath he hsource
    · exact h key d hstore hkey hd e he _ hsource
  exact hfits.congr hlike rfl

end Resolved

/-- If nothing is found wrong during the expansion, every instance in a library definition that is
used has been expanded. -/
theorem librariesFit_of_expansionsFit (hregular : w.Regular) {root : Definition}
    (hroot : w.forest[""]? = some root) (herrors : w.resolve.1.forestErrors = 0)
    (hquiet : w.resolve.1.expansionFindings = []) (h : w.resolve.1.ExpansionsFit) :
    w.resolve.1.LibrariesFit := by
  intro key d _ _ hd e he i hi
  have hnetlist := forest_resolve_root hroot
  have hkeyed := (hregular.resolve.forest "" _ hnetlist).keyed
  have hzero := errors_eq_zero_of_forestErrors herrors hnetlist
  unfold expansionFindings at hquiet
  rw [hnetlist] at hquiet
  obtain ⟨j, hj, hlike, hproto⟩ := Expansion.exists_mem_expansions hquiet hkeyed
    (fun _ he => Forest.bound_of_errors_eq_zero hnetlist hzero he) hd he hi
  obtain ⟨hsame, -⟩ := Expansion.Setting.instance?_eq_some_iff.1 hi
  rw [← hsame] at hlike
  exact (h j hj).congr hlike.symm (congrArg Definition.interface hproto.symm)

section Prepared

variable {disk : Disk} {label text : String}

/-- What is known of a netlist that has been read: nothing is bound, and it stands in the forest. -/
theorem unbound_readNetlist (w : Workspace) (disk : Disk) (label text : String) :
    (∀ (path : String) (d : Definition),
      (w.readNetlist disk label text).forest[path]? = some d → d.Unbound) ∧
      ∃ root, (w.readNetlist disk label text).forest[""]? = some root := by
  have hframes : disk.loader.Frames disk := Loading.frames_loader disk _
  have hwhole := w.ofWholeNetlist_readerWith hframes label text
  obtain ⟨root, -, -, hsettle⟩ := hwhole.settle_eq
  rw [readNetlist_eq]
  refine ⟨fun _ _ => hwhole.unbound_settle, root, ?_⟩
  rw [hsettle]
  exact Std.ExtTreeMap.getElem?_insert_self

/-- If no error has been found by the end of resolution, every instance in the netlist's own
definitions is expanded, if at all, against a sub-circuit that it fits.  All instances that are
expanded fit if those in the library definitions that are used do; and these have to, if nothing is
found wrong during the expansion. -/
theorem expansionsFit_of_prepared (h : w.Reachable)
    (hprepared : (w.prepare disk label text).forestErrors = 0) :
    (∀ (path : String) (d : Definition), (w.prepare disk label text).forest[path]? = some d →
        ∀ e ∈ d.elements.values, ∀ key, e.prototype? = some key →
          ∃ proto, (w.prepare disk label text).expansionSetting.prototype? key = some proto ∧
            Instance.Fits ⟨e, proto⟩) ∧
      ((w.prepare disk label text).LibrariesFit → (w.prepare disk label text).ExpansionsFit) ∧
      ((w.prepare disk label text).expansionFindings = [] →
        (w.prepare disk label text).ExpansionsFit → (w.prepare disk label text).LibrariesFit) := by
  have hregular := h.regular.readNetlist disk label text
  obtain ⟨hunbound, root, hroot⟩ := w.unbound_readNetlist disk label text
  unfold prepare at hprepared ⊢
  generalize w.readNetlist disk label text = read at *
  exact ⟨fun _ _ hd _ he _ hkey => fits_of_resolved hunbound hprepared hd he hkey,
    expansionsFit_of_librariesFit hunbound hprepared hroot,
    librariesFit_of_expansionsFit hregular hroot hprepared⟩

end Prepared

/-- An instance with another number of nodes than its sub-circuit does not fit. -/
theorem not_expansionsFit_of_any (h : (w.expansionSetting.expansions w.netlist).any
    (fun i => i.element.nodes.length != i.proto.nodes.length) = true) : ¬w.ExpansionsFit := by
  intro hfit
  obtain ⟨i, hi, hne⟩ := List.any_eq_true.1 h
  exact absurd (hfit i hi).nodes (bne_iff_ne.1 hne)

/-- Two libraries with different sub-circuits of one name, of which the second one uses its own. -/
def conflictDisk : Disk :=
  (((FileTree.rooted []).write "a.lib" "\"a\"\n.subckt A a b\nR1 a b 1\n.ends\n".toUTF8).write
    "b.lib" ("\"b\"\n.subckt A a b c\nR1 a b 1\nR2 b c 1\n.ends\n" ++
      ".subckt B a b\nX1 a 0 b A\n.ends\n").toUTF8).disk

/-- A netlist that loads both libraries and uses the sub-circuit that uses the other one. -/
def conflictText : String := "t\n.lib a.lib b.lib\nX1 1 2 B\nR1 2 0 1\n.end\n"

/-- The netlist after it has been read and resolved. -/
def conflict : Workspace := standard.prepare conflictDisk "main.cir" conflictText

set_option maxRecDepth 100000 in
/-- No error is counted in the netlist that loads the two libraries. -/
theorem forestErrors_conflict : conflict.forestErrors = 0 := by decide +kernel

/-- The netlist with both libraries has been resolved without errors. -/
theorem expansionsFit_of_prepared_conflict :
    standard.Reachable ∧ (standard.prepare conflictDisk "main.cir" conflictText).forestErrors = 0 ∧
      ((standard.prepare conflictDisk "main.cir" conflictText).LibrariesFit →
        (standard.prepare conflictDisk "main.cir" conflictText).ExpansionsFit) :=
  ⟨reachable_standard, forestErrors_conflict,
    (expansionsFit_of_prepared reachable_standard forestErrors_conflict).2.1⟩

set_option maxRecDepth 100000 in
/-- An instance with three nodes is expanded against a sub-circuit with two, although nothing has
been found wrong. -/
theorem not_expansionsFit_conflict :
    standard.Reachable ∧ (standard.prepare conflictDisk "main.cir" conflictText).forestErrors = 0 ∧
      ¬(standard.prepare conflictDisk "main.cir" conflictText).ExpansionsFit :=
  ⟨reachable_standard, forestErrors_conflict, not_expansionsFit_of_any (by decide +kernel)⟩

end Workspace

end FlatNet
