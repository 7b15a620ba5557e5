import FlatNet.Proofs.CrossReferences
import FlatNet.Proofs.Laplace.Instance
import FlatNet.Proofs.Repetition
import FlatNet.Proofs.Scopes

/-!
# The Laplace variable in flat circuits

The Laplace variable is looked for where expressions are written: on the lines of elements and in
named models.  When an instance is expanded, other expressions are put in for the symbols in them,
and nothing is looked at again.  So the Laplace variable gets past the check through a parameter
that an instance sets and through the default of a formal parameter.  `laplaceFree_iff` says that it
gets into the flat circuit in no other way, as long as the named models of libraries are free of it.
-/

set_option autoImplicit false

namespace FlatNet

open Expansion

/-- No element of the circuit has the Laplace variable in a parameter in which its model forbids
it. -/
def Circuit.LaplaceFree (c : Circuit) : Prop := ∀ e ∈ c.elements.values, e.LaplaceFree

namespace Workspace

variable {w : Workspace} {ps : List Promotion} {disk : Disk} {label text : String}

/-- Reading a netlist leaves the settings alone. -/
theorem settings_readNetlist (w : Workspace) (disk : Disk) (label text : String) :
    (w.readNetlist disk label text).settings = w.settings := by
  have hframes : disk.loader.Frames disk := Loading.frames_loader disk _
  have hkept : 0 < _ ∧ (w.readerWith disk.loader label text).work.settings = w.settings :=
    (Reader.keeps_settings hframes ⟨label, .netlist⟩ w.settings).ofText ⟨Nat.succ_pos _, rfl⟩
  rw [readNetlist_eq, (Reader.settle_kept _).1]
  exact hkept.2

section Resolved

variable (hunbound : w.forest.Unbound) (hready : w.resolve.1.Ready)
  (hseverity : w.settings.laplaceSeverity = .error) (hstock : w.resolve.1.stock.CardsFree)
  (hmade : w.resolve.1.stock.MadeBy ps) (hfree : ∀ p ∈ ps, p.CardsFree)

include hunbound hready hseverity hstock

/-- In a netlist that has been resolved without errors no element of its own definitions has the
Laplace variable where it is forbidden, if the named models of the libraries are free of it. -/
theorem laplaceFree_of_forest {path : String} {d : Definition}
    (hd : w.resolve.1.forest[path]? = some d) : ∀ e ∈ d.elements.values, e.LaplaceFree := by
  have hzero : ∀ (path : String) (d : Definition), w.resolve.1.forest[path]? = some d →
      d.errors = 0 := fun _ _ hd => errors_eq_zero_of_forestErrors hready.forestErrors hd
  have hresolved : w.resolve.1.forest.CardsFree := fun path d hd =>
    Forest.cardsFree_of_errors_eq_zero hseverity hd (hzero path d hd)
  have hagree := Forest.agree_foldl_resolveAt (s := Loading.surroundings .netlist w)
    w.forest.keys (w.forest, [])
  exact Forest.laplaceFree_of_errors_eq_zero hunbound (hstock.surroundings _ _)
    (hagree.symm.cardsFree hresolved) hd (hzero path d hd)

include hmade hfree

/-- In a netlist that has been resolved without errors no place has the Laplace variable where it is
forbidden, as its definition has it, if the named models of libraries are free of it. -/
theorem laplaceFree_of_mem_places {o : Occurrence} (ho : o ∈ w.resolve.1.places) :
    o.inner.LaplaceFree := by
  obtain ⟨d, hd, hinner, -⟩ := exists_definition_of_mem_places ho
  have hown : ∀ {path : String}, w.resolve.1.forest[path]? = some d → o.inner.LaplaceFree :=
    fun hpath => laplaceFree_of_forest hunbound hready hseverity hstock hpath o.inner hinner
  rcases hd with hd | ⟨key, hkey⟩
  · exact hown (hd ▸ hready.forest)
  · by_cases hstore : key.store = .netlist
    · rw [prototype?_eq, hstore] at hkey
      exact hown hkey
    · obtain ⟨kind, hkind⟩ := exists_library_of_prototype? hstore hkey
      exact hmade.laplaceFree hfree hkind o.inner hinner

end Resolved

/-- A place is an element of the netlist or a copy that an instance makes. -/
theorem cases_of_mem_places {o : Occurrence} (ho : o ∈ w.places) :
    (∃ e ∈ w.netlist.elements.values, o = ⟨[], e, e⟩) ∨
      ∃ around i, w.HasInstance around i ∧
        ∃ c ∈ i.copies w.globals, o = ⟨around.path, c.1, c.2⟩ := by
  refine (Setting.mem_places_iff.1 ho).imp_right ?_
  rintro ⟨around, hexpanded, i, hknown, hcopy⟩
  exact ⟨around, i, ⟨hexpanded, hknown⟩, hcopy⟩

/-- The elements of the netlist are among the places. -/
theorem mem_places_of_mem_values {e : Element} (he : e ∈ w.netlist.elements.values) :
    ⟨[], e, e⟩ ∈ w.places := Setting.mem_places_iff.2 (.inl ⟨e, he, rfl⟩)

/-- The copies that an instance of the netlist makes are among the places. -/
theorem HasInstance.mem_places {o : Occurrence} {i : Instance} (hi : w.HasInstance o i)
    {c : Element × Element} (hc : c ∈ i.copies w.globals) : ⟨o.path, c.1, c.2⟩ ∈ w.places :=
  Setting.mem_places_iff.2 (.inr ⟨o, hi.expanded, i, hi.known, c, hc, rfl⟩)

/-- The flat circuit of an accepted netlist is free of the Laplace variable exactly if the elements
of the netlist are and every instance keeps it out. -/
theorem laplaceFree_compile_iff (h : w.Regular)
    (haccepted : (w.compile disk label text).2.errors = 0) :
    (w.compile disk label text).2.LaplaceFree ↔
      (∀ e ∈ (w.prepare disk label text).netlist.elements.values, e.LaplaceFree) ∧
        ∀ o i, (w.prepare disk label text).HasInstance o i →
          i.KeepsLaplaceOut (w.prepare disk label text).globals := by
  have hplaces : (w.compile disk label text).2.LaplaceFree ↔
      ∀ o ∈ (w.prepare disk label text).places, o.outer.LaplaceFree := by
    constructor
    · intro hfree o ho
      cases hprimitive : o.outer.primitive? with
      | none => exact Element.laplaceFree_of_primitive?_eq_none hprimitive
      | some p =>
        have hleaf : o.isLeaf = true := by
          unfold Occurrence.isLeaf
          rw [hprimitive]
          rfl
        exact hfree o.outer (NameMap.mem_values.2
          ⟨_, (getElem?_elements_of_accepted h haccepted).2 ⟨o, ho, hleaf, rfl, rfl⟩⟩)
    · intro hfree e he
      obtain ⟨name, hname⟩ := NameMap.mem_values.1 he
      obtain ⟨l, hl, -, -, rfl⟩ := (getElem?_elements_of_accepted h haccepted).1 hname
      exact hfree l hl
  rw [hplaces]
  constructor
  · intro hfree
    refine ⟨fun e he => ?_, fun o i hi => Instance.laplaceFree_copies_iff.1 fun c hc => ?_⟩
    · exact hfree _ (mem_places_of_mem_values he)
    · exact hfree _ (hi.mem_places hc)
  · rintro ⟨hown, hkeeps⟩ o ho
    rcases cases_of_mem_places ho with ⟨e, he, rfl⟩ | ⟨around, i, hi, c, hc, rfl⟩
    · exact hown e he
    · exact Instance.laplaceFree_copies_iff.2 (hkeeps around i hi) c hc

/-- No instance of the netlist hands the Laplace variable on: it is neither on the line of an
instance nor in the default of a formal parameter. -/
structure HandsNoLaplaceOn (w : Workspace) : Prop where
  lines : ∀ o ∈ w.places, o.isInstance = true → ∀ value ∈ o.inner.params.values,
    value.mentions laplaceVariable = false
  defaults : ∀ o i, w.HasInstance o i → ∀ value ∈ i.proto.formals.values,
    value.mentions laplaceVariable = false

namespace HandsNoLaplaceOn

/-- An instance whose own parameters are without the Laplace variable puts it in for nothing but
itself. -/
theorem eq_of_putsLaplace (h : w.HandsNoLaplaceOn) {o : Occurrence} {i : Instance}
    (hi : w.HasInstance o i)
    (houter : ∀ value ∈ o.outer.params.values, value.mentions laplaceVariable = false) {q : String}
    (hputs : i.PutsLaplace w.globals q) : q = laplaceVariable := by
  have hactuals := houter
  rw [← (Setting.instance?_eq_some_iff.1 hi.known).1] at hactuals
  exact hputs.brings.resolve_right (Instance.not_bringsLaplace hactuals (h.defaults o i hi))

/-- The parameters of all instances stay without the Laplace variable, at any nesting. -/
theorem outer (h : w.HandsNoLaplaceOn) : ∀ o ∈ w.expanded, ∀ value ∈ o.outer.params.values,
    value.mentions laplaceVariable = false := by
  refine Setting.forall_mem_instancesFrom (fun o ho => ?_) fun o ho houter c hc hinstance => ?_
  · obtain ⟨htop, hinstance⟩ := List.mem_filter.1 ho
    obtain ⟨e, -, rfl⟩ := List.mem_map.1 htop
    exact h.lines ⟨[], e, e⟩ (List.mem_append_left _ htop) hinstance
  · obtain ⟨i, hknown, copy, hcopy, rfl⟩ := Setting.exists_copy_of_mem_inside hc
    have hi : w.HasInstance o i := ⟨ho, hknown⟩
    intro value hvalue
    obtain ⟨name, hname⟩ := NameMap.mem_values.1 hvalue
    dsimp only at hname
    rw [Instance.getElem?_params_of_mem_copies hcopy] at hname
    obtain ⟨inner, hinner, rfl⟩ := Option.map_eq_some_iff.1 hname
    have hmem := (Instance.exists_eq_copy_of_mem_copies hcopy).1
    by_contra hmentions
    rw [Bool.not_eq_false,
      Instance.mentions_subst_iff (Instance.mem_translated hmem hinner)] at hmentions
    obtain ⟨q, hq, hputs⟩ := hmentions
    obtain rfl := h.eq_of_putsLaplace hi houter hputs
    have hline := h.lines _ (hi.mem_places hcopy) hinstance inner
      (NameMap.mem_values.2 ⟨name, hinner⟩)
    rw [Expr.mentions_eq_true.2 (Expr.mem_symbols.1 hq)] at hline
    exact absurd hline (by simp)

/-- If all places are free of the Laplace variable as their definitions have them, every instance
keeps it out. -/
theorem keepsLaplaceOut (h : w.HandsNoLaplaceOn)
    (hinner : ∀ o ∈ w.places, o.inner.LaplaceFree) {o : Occurrence} {i : Instance}
    (hi : w.HasInstance o i) : i.KeepsLaplaceOut w.globals := by
  intro e he p hp name value hvalue hforbids q hq hputs
  obtain rfl := h.eq_of_putsLaplace hi (h.outer o hi.expanded) hputs
  obtain ⟨c, hc, rfl⟩ := Instance.exists_copy w.globals he
  have hnone := hinner _ (hi.mem_places hc) p hp name value hvalue hforbids
  rw [Expr.mentions_eq_true.2 (Expr.mem_symbols.1 hq)] at hnone
  exact absurd hnone (by simp)

end HandsNoLaplaceOn

/-- The named models of the libraries that a netlist is flattened with are free of the Laplace
variable if it has been an error in every promotion. -/
theorem History.cardsFree_prepare (h : w.History ps) (disk : Disk) (label text : String)
    (hall : ∀ p ∈ ps ++ w.promotionsOfCompile disk label text,
      p.before.settings.laplaceSeverity = .error) :
    (w.prepare disk label text).stock.CardsFree := by
  intro kind
  obtain ⟨hbefore, hnew⟩ := List.forall_mem_append.1 hall
  unfold prepare
  rw [stock_resolve]
  exact (grows_readNetlist w disk label text).cardsFree
    (h.cardsFree kind fun p hp _ => hbefore p hp) fun p hp _ => hnew p hp

/-- Where the Laplace variable is an error, an accepted netlist has it in none of its own
definitions where a model forbids it, as long as the named models of the libraries are free of it;
they are if it was an error in every promotion.  The same is true of what the netlist uses of the
libraries, if the named models are free of it that their texts could use.

The flat circuit is free of it exactly if every instance keeps it out.  If an instance puts it in
for another symbol, it has come in with an actual parameter or with a default; and unless defaults
go in circles, what has come in is put in.  So the flat circuit is free of it if it is neither on
the line of an instance nor in a default. -/
theorem laplaceFree_iff (h : w.History ps) (hseverity : w.settings.laplaceSeverity = .error)
    (disk : Disk) (label text : String) (haccepted : (w.compile disk label text).2.errors = 0) :
    let prepared := w.prepare disk label text
    let made := ps ++ w.promotionsOfCompile disk label text
    ((∀ p ∈ made, p.before.settings.laplaceSeverity = .error) → prepared.stock.CardsFree) ∧
      (prepared.stock.CardsFree →
        (∀ (path : String) (d : Definition), prepared.forest[path]? = some d →
          ∀ e ∈ d.elements.values, e.LaplaceFree) ∧
        ((∀ p ∈ made, p.CardsFree) → ∀ o ∈ prepared.places, o.inner.LaplaceFree)) ∧
      ((w.compile disk label text).2.LaplaceFree ↔
        (∀ e ∈ prepared.netlist.elements.values, e.LaplaceFree) ∧
          ∀ o i, prepared.HasInstance o i → i.KeepsLaplaceOut prepared.globals) ∧
      (∀ o i, prepared.HasInstance o i → ∀ q, i.PutsLaplace prepared.globals q →
        q = laplaceVariable ∨ i.BringsLaplace q) ∧
      (∀ o i, prepared.HasInstance o i → (∀ f, ¬i.LeadsTo f f) → ∀ e ∈ i.translated,
        ∀ q ∈ e.symbols, i.BringsLaplace q → i.PutsLaplace prepared.globals q) ∧
      ((∀ o ∈ prepared.places, o.inner.LaplaceFree) → prepared.HandsNoLaplaceOn →
        (w.compile disk label text).2.LaplaceFree) := by
  have hiff := laplaceFree_compile_iff h.reachable.regular haccepted
  have hready := (ready_of_accepted h.reachable.regular haccepted).1
  have hmade := h.madeBy_readNetlist disk label text
  have hunbound := (w.unbound_readNetlist disk label text).1
  have hread : (w.readNetlist disk label text).settings.laplaceSeverity = .error := by
    rw [settings_readNetlist, hseverity]
  have hcards := h.cardsFree_prepare disk label text
  unfold prepare at hiff hready hcards ⊢
  generalize w.readNetlist disk label text = read at *
  refine ⟨hcards, fun hstock => ⟨fun path d hd => ?_, fun hfree o ho => ?_⟩, hiff,
    fun o i _ q hputs => hputs.brings,
    fun o i _ hstraight e he q hq hbrings => Instance.putsLaplace_of_brings hstraight he hq hbrings,
    fun hinner hnone => hiff.2 ⟨fun e he => ?_, fun o i hi => ?_⟩⟩
  · exact laplaceFree_of_forest hunbound hready hread hstock hd
  · exact laplaceFree_of_mem_places hunbound hready hread hstock hmade hfree ho
  · exact hinner _ (mem_places_of_mem_values he)
  · exact hnone.keepsLaplaceOut hinner hi

/-- A workspace with the standard library in which the Laplace variable is an error. -/
def strict : Workspace := withBuiltin { laplaceSeverity := .error } standard.builtin

/-- The strict workspace comes about by the public operations. -/
theorem reachable_strict : strict.Reachable := .withBuiltin _ reachable_standard

/-- A netlist with an instance that sets a parameter to an expression with the Laplace variable.
The sub-circuit has an element, on a line of its own, whose value is this parameter. -/
def handedText (line : String) : String :=
  "t\n.subckt P a b z=1\nC0 a b 1p\n" ++ line ++ "\n.ends\nX1 1 0 P z=\x7b1/s\x7d\n.end\n"

set_option maxRecDepth 100000 in
/-- The netlist that hands the variable to a resistor is accepted. -/
theorem accepted_resistor :
    (strict.compile Disk.empty "main.cir" (handedText "R1 a b \x7bz\x7d")).2.errors = 0 := by
  refine errors_compile_eq_zero ?_ ?_ ?_
  · decide +kernel
  · decide +kernel
  · exact contains_connectedNodes_flatten "C0_X1" groundNode (by decide +kernel) (by decide +kernel)

set_option maxRecDepth 100000 in
/-- The netlist that hands the variable to a capacitor is accepted. -/
theorem accepted_capacitor :
    (strict.compile Disk.empty "main.cir" (handedText "C1 a b \x7bz\x7d")).2.errors = 0 := by
  refine errors_compile_eq_zero ?_ ?_ ?_
  · decide +kernel
  · decide +kernel
  · exact contains_connectedNodes_flatten "C0_X1" groundNode (by decide +kernel) (by decide +kernel)

set_option maxRecDepth 100000 in
/-- The value of a resistor may contain the Laplace variable: the instance brings it in and keeps it
out of all other parameters. -/
theorem laplaceFree_iff_resistor :
    ∃ ps, strict.History ps ∧ strict.settings.laplaceSeverity = .error ∧
      (strict.compile Disk.empty "main.cir" (handedText "R1 a b \x7bz\x7d")).2.errors = 0 ∧
      (strict.compile Disk.empty "main.cir" (handedText "R1 a b \x7bz\x7d")).2.LaplaceFree := by
  obtain ⟨ps, hps⟩ := reachable_strict.exists_history
  have hall : ((strict.prepare Disk.empty "main.cir" (handedText "R1 a b \x7bz\x7d")).places.all
      fun o => o.outer.isLaplaceFree) = true := by decide +kernel
  have hfree := fun o ho => Element.isLaplaceFree_iff.1 (List.all_eq_true.1 hall o ho)
  obtain ⟨-, -, hiff, -⟩ := laplaceFree_iff hps rfl Disk.empty "main.cir"
    (handedText "R1 a b \x7bz\x7d") accepted_resistor
  refine ⟨ps, hps, rfl, accepted_resistor, hiff.2 ⟨fun e he => ?_, fun o i hi => ?_⟩⟩
  · exact hfree _ (mem_places_of_mem_values he)
  · exact Instance.laplaceFree_copies_iff.1 fun c hc => hfree _ (hi.mem_places hc)

/-- Looks for a capacitor whose value contains the symbol `z`, in an instance that sets `z` to an
expression with the Laplace variable. -/
def handsOn (i : Instance) : Bool :=
  (i.element.params["z"]?).any (fun value => value.mentions laplaceVariable) &&
    i.proto.elements.values.any fun e =>
      e.primitive? == some .capacitor && (e.params["value"]?).any fun value => value.mentions "z"

/-- An instance that hands the variable on does not keep it out. -/
theorem not_keepsLaplaceOut_of_handsOn {i : Instance} (g : Globals) (h : handsOn i = true) :
    ¬i.KeepsLaplaceOut g := by
  intro hkeeps
  obtain ⟨hactual, hany⟩ := Bool.and_eq_true_iff.1 h
  obtain ⟨actual, hactual, hmentions⟩ := (Option.any_eq_true _ _).1 hactual
  obtain ⟨e, he, hboth⟩ := List.any_eq_true.1 hany
  obtain ⟨hprimitive, hvalue⟩ := Bool.and_eq_true_iff.1 hboth
  obtain ⟨value, hvalue, hz⟩ := (Option.any_eq_true _ _).1 hvalue
  have hq := Expr.mem_symbols.2 (Expr.mentions_eq_true.1 hz)
  have htranslated := Instance.mem_translated he hvalue
  obtain ⟨v, hv⟩ := Instance.knows_of_needs (g := g) htranslated (.direct hq)
  have hsame := ((i.valid_known g).means _ v hv).eq_of_actual (by decide) hactual
  rw [← hsame] at hmentions
  exact hkeeps e he .capacitor (eq_of_beq hprimitive) "value" value hvalue (by decide) "z" hq
    ⟨v, hv, hmentions⟩

set_option maxRecDepth 100000 in
/-- The value of a capacitor must not contain the Laplace variable, but through the instance it
does. -/
theorem not_laplaceFree_capacitor :
    strict.Reachable ∧ strict.settings.laplaceSeverity = .error ∧
      (strict.compile Disk.empty "main.cir" (handedText "C1 a b \x7bz\x7d")).2.errors = 0 ∧
      ¬(strict.compile Disk.empty "main.cir" (handedText "C1 a b \x7bz\x7d")).2.LaplaceFree := by
  refine ⟨reachable_strict, rfl, accepted_capacitor, fun hfree => ?_⟩
  have hany :
      let prepared := strict.prepare Disk.empty "main.cir" (handedText "C1 a b \x7bz\x7d")
      (prepared.expanded.any fun o =>
        (prepared.expansionSetting.instance? o.outer).any handsOn) = true := by
    decide +kernel
  obtain ⟨o, i, ho, hi, hhands⟩ := exists_instance_of_any hany
  obtain ⟨-, hkeeps⟩ :=
    (laplaceFree_compile_iff reachable_strict.regular accepted_capacitor).1 hfree
  exact not_keepsLaplaceOut_of_handsOn _ hhands (hkeeps o i ⟨ho, hi⟩)

end Workspace

end FlatNet
