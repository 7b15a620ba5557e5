import FlatNet.Proofs.Compilation
import FlatNet.Proofs.Instance.Definitions
import FlatNet.Proofs.Library.Worded

/-!
# Flat circuits are worded

The names in the expressions of a flat circuit are words of the netlist language, as those of the
definitions are that it is made from: a name inside a sub-circuit is a word, the name that it gets
outside is that word continued, and everything else that is put in for it comes from the instance,
from the sub-circuit or from a library.
-/

set_option autoImplicit false

namespace FlatNet

open Text (isWordChar)

/-- The names in the definitions of all global parameters are words. -/
def Globals.Worded (g : Globals) : Prop :=
  ∀ (name : String) (value : Expr), g.value? name = some value → value.Worded

/-- Pulling global parameters keeps definitions worded. -/
theorem NameMap.Worded.pull {params : NameMap Expr} (h : params.Worded) {g : Globals}
    (hg : g.Worded) (names : List String) : NameMap.Worded (g.pull names params) := by
  intro name value hvalue
  rcases Globals.getElem?_pull hvalue with hold | ⟨-, hglobal⟩
  · exact h name value hold
  · exact hg name value hglobal

/-! ## Instances -/

/-- The names in the expressions of an instance and of its sub-circuit are words. -/
structure Instance.Worded (i : Instance) : Prop where
  element : i.element.Worded
  proto : i.proto.Worded

namespace Instance

variable {i : Instance} {g : Globals} {name : String}

/-- A name inside an instance is continued by an underscore and the name of the instance. -/
theorem toList_rename (i : Instance) (name : String) :
    (i.rename name).toList = name.toList ++ '_' :: i.element.refDes.toList := by
  rw [rename, String.toList_append, String.toList_append, List.append_assoc]
  rfl

namespace Worded

/-- What a name is continued by consists of the characters of words. -/
theorem isWordChar_suffix (h : i.Worded) :
    ∀ c ∈ '_' :: i.element.refDes.toList, isWordChar c = true :=
  List.forall_mem_cons.2 ⟨by decide, h.element.refDes⟩

/-- A word is a word outside, too. -/
theorem isWord_rename (h : i.Worded) (hname : IsWord name.toList) :
    IsWord (i.rename name).toList := by
  rw [toList_rename]
  exact hname.append h.isWordChar_suffix

/-- What a word stands for in an instance is worded. -/
theorem of_means (h : i.Worded) {value : Expr} (hmeans : i.Means g name value)
    (hname : IsWord name.toList) : value.Worded := by
  have hrenamed : ∀ {name : String}, IsWord name.toList → (Expr.sym (i.rename name)).Worded :=
    fun hname => Expr.worded_sym.2 (h.isWord_rename hname)
  induction hmeans with
  | reserved | global => exact Expr.worded_sym.2 hname
  | actual _ hactual => exact h.element.params _ _ hactual
  | default _ _ hformal _ _ ih =>
    -- only what is bound to symbols of the default matters, and these are words
    have hdefault := h.proto.formals _ _ hformal
    exact hdefault.subst fun q v hq hv => ih q v hv hq
  | circle | own | free => exact hrenamed hname

/-- What an expression stands for in an instance is worded. -/
theorem of_meansExpr (h : i.Worded) {e outer : Expr} (he : e.Worded)
    (hmeans : i.MeansExpr g e outer) : outer.Worded := by
  obtain ⟨bindings, -, hbound, rfl⟩ := hmeans
  exact he.subst fun q v hq hv => h.of_means (hbound q v hv) hq

/-- Parameters that an instance translates are worded, if those inside are. -/
theorem of_paramsMean (h : i.Worded) {inner outer : NameMap Expr} (hinner : inner.Worded)
    (hmean : i.ParamsMean g inner outer) : outer.Worded := by
  intro name value hvalue
  have hmem : name ∈ outer :=
    Std.ExtTreeMap.contains_iff_mem.1 (NameMap.contains_iff.2 ⟨value, hvalue⟩)
  have hinside := Std.ExtTreeMap.contains_iff_mem.2 ((hmean.1 name).1 hmem)
  obtain ⟨e, he⟩ := NameMap.contains_iff.1 hinside
  exact h.of_meansExpr (hinner name e he) (hmean.2 name e value he hvalue)

/-- The copies that an instance makes are worded. -/
theorem of_mem_copies (h : i.Worded) {c : Element × Element} (hc : c ∈ i.copies g) :
    c.2.Worded := by
  obtain ⟨hmem, m, hcopy⟩ := exists_eq_copy_of_mem_copies hc
  have hinner := h.proto.elements c.1 hmem
  refine ⟨?_, h.of_paramsMean hinner.params (paramsMean_of_mem_copies hc)⟩
  have hrefDes : c.2.refDes = i.rename c.1.refDes := by
    rw [hcopy]
    rfl
  rw [hrefDes, toList_rename]
  exact List.forall_mem_append.2 ⟨hinner.refDes, h.isWordChar_suffix⟩

/-- Parameters stay worded when an instance adds those that its copies need. -/
theorem define (h : i.Worded) (hg : g.Worded) {params : NameMap Expr} (hparams : params.Worded) :
    NameMap.Worded (i.define g params) := by
  have hdefinitions : ∀ d ∈ i.definitions g, d.2.Worded := by
    intro d hd
    obtain ⟨name, value, hvalue, -, -, hmeans⟩ := exists_param_of_mem_definitions hd
    exact h.of_meansExpr (h.proto.params name value hvalue) hmeans
  rw [define_eq]
  exact (hparams.foldl_insertIfNew hdefinitions).pull hg _

end Worded

end Instance

/-! ## Expansion -/

/-- The names in all expressions of the circuit are words. -/
structure Circuit.Worded (c : Circuit) : Prop where
  elements : ∀ e ∈ c.elements.values, e.Worded
  params : c.params.Worded

namespace Circuit.Worded

variable {c : Circuit}

/-- The circuit stays worded when an element is taken away. -/
theorem erase (h : c.Worded) (name : String) :
    Circuit.Worded { c with elements := c.elements.erase name } where
  elements e he := by
    obtain ⟨key, hkey⟩ := NameMap.mem_values.1 he
    exact h.elements e (NameMap.mem_values.2 ⟨key, NameMap.getElem?_of_erase hkey⟩)
  params := h.params

/-- The circuit stays worded with a worded element added. -/
theorem insert (h : c.Worded) {e : Element} (he : e.Worded) :
    Circuit.Worded { c with elements := c.elements.insert e.refDes e } where
  elements other hother := by
    rcases NameMap.mem_values_insert hother with rfl | hother
    · exact he
    · exact h.elements other hother
  params := h.params

/-- Completion keeps a circuit worded. -/
theorem complete (h : c.Worded) {g : Globals} (hg : g.Worded) : (c.complete g).1.Worded := by
  refine ⟨fun e he => ?_, ?_⟩
  · rw [elements_complete] at he
    exact h.elements e he
  · cases hground : c.connectedNodes.contains groundNode with
    | true =>
      rw [params_complete hground]
      exact h.params.pull hg _
    | false =>
      have hhas : ({ c with nodes := c.connectedNodes } : Circuit).hasGround = false := hground
      unfold Circuit.complete
      dsimp only
      rw [if_neg (by rw [hhas]; simp)]
      exact h.params

end Circuit.Worded

namespace Expansion

/-- The names in the definitions that instances are expanded from are words. -/
structure Setting.Worded (s : Setting) : Prop where
  prototypes : ∀ (key : PrototypeKey) (proto : Definition), s.prototype? key = some proto →
    proto.Worded
  globals : s.globals.Worded

variable {s : Setting} {p : Progress}

/-- The circuit stays worded when worded copies are added. -/
theorem worded_addCopies (h : p.circuit.Worded) (i : Instance) {cs : List (Element × Element)}
    (hcs : ∀ c ∈ cs, c.2.Worded) : (addCopies i cs p).circuit.Worded := by
  refine addCopies_keeps (Q := fun q => q.circuit.Worded) (fun c hc p q hjoins hp => ?_) h
  cases hjoins with
  | unbound _ | taken _ _ => exact hp
  | inserted _ _ => exact hp.insert (hcs c hc)

/-- Expanding a worded instance keeps the circuit worded. -/
theorem worded_expandInstance (h : p.circuit.Worded) {g : Globals} (hg : g.Worded) {i : Instance}
    (hi : i.Worded) : (expandInstance g i p).circuit.Worded := by
  rw [expandInstance_eq]
  have hadded := worded_addCopies h i fun c hc => hi.of_mem_copies (g := g) hc
  exact ⟨hadded.elements, hi.define hg h.params⟩

/-- Expanding what stands under a name keeps the circuit worded. -/
theorem worded_expandNamed (hs : s.Worded) (h : p.circuit.Worded) (name : String) :
    (expandNamed s p name).circuit.Worded := by
  have hcounted : (p.counted name).circuit.Worded := h.erase name
  have hturn := turn_expandNamed s p name
  generalize expandNamed s p name = q at hturn ⊢
  cases hturn with
  | aborted _ | idle _ => exact h
  | excess _ _ _ _ | unknown _ _ _ _ _ => exact hcounted
  | expanded _ he _ _ hproto =>
    have helement := h.elements _ (NameMap.mem_values.2 ⟨name, he⟩)
    exact worded_expandInstance hcounted hs.globals ⟨helement, hs.prototypes _ _ hproto⟩

/-- Refusing what stands under a name keeps the circuit worded. -/
theorem worded_refuseNamed (h : p.circuit.Worded) (name : String) :
    (refuseNamed s p name).circuit.Worded := by
  have hrefuses := refuses_refuseNamed s p name
  generalize refuseNamed s p name = q at hrefuses ⊢
  cases hrefuses with
  | idle _ => exact h
  | refused _ _ => exact h.erase name

/-- A flattened netlist is worded if it and the sub-circuits are. -/
theorem worded_flatten (hs : s.Worded) {root : Definition} (hroot : root.Worded) :
    (flatten s root).1.Worded := by
  have hbegin : (start root).Worded := ⟨hroot.elements, hroot.params⟩
  have hend := expandLevels_invariant (s := s) (Q := fun p => p.circuit.Worded)
    (fun _ name hp => worded_expandNamed hs hp name) (fun _ name hp => worded_refuseNamed hp name)
    (fun _ hp => hp) s.maxDepth (instanceNames root.elements)
    (p := ⟨start root, #[], 0, false, #[]⟩) hbegin
  refine ⟨fun e he => ?_, hend.params⟩
  obtain ⟨name, hget⟩ := NameMap.mem_values.1 he
  change ((expandLevels s s.maxDepth (instanceNames root.elements)
    ⟨start root, #[], 0, false, #[]⟩).circuit.elements.filter
      fun _ e => e.primitive?.isSome)[name]? = some e at hget
  rw [Std.ExtTreeMap.getElem?_filter'] at hget
  have hleft := (Option.filter_eq_some_iff.1 hget).1
  exact hend.elements e (NameMap.mem_values.2 ⟨name, hleft⟩)

end Expansion

/-! ## Compiled circuits -/

namespace Workspace

variable {w : Workspace}

/-- The global parameters of a worded workspace are worded. -/
theorem Worded.globals (h : w.Worded) : w.globals.Worded := by
  intro name value hvalue
  change (w.user.params[name]?).or w.builtin.params[name]? = some value at hvalue
  rcases Option.or_eq_some_iff.1 hvalue with huser | ⟨-, hbuiltin⟩
  · exact h.user.params name value huser
  · exact h.builtin.params name value hbuiltin

/-- In a worded workspace instances are expanded from worded definitions. -/
theorem Worded.expansionSetting (h : w.Worded) : w.expansionSetting.Worded where
  prototypes key proto hproto := by
    change (w.definitions key.store)[key.path]? = some proto at hproto
    cases hstore : key.store with
    | netlist =>
      rw [hstore] at hproto
      exact h.forest _ _ hproto
    | user =>
      rw [hstore] at hproto
      exact h.user.circuits _ _ hproto
    | builtin =>
      rw [hstore] at hproto
      exact h.builtin.circuits _ _ hproto
  globals := h.globals

/-- A circuit that stops short has no expressions. -/
theorem worded_stopped (w : Workspace) : w.stopped.Worded :=
  ⟨fun e he => absurd (NameMap.mem_values.1 he) (by simp [stopped, Circuit.titled]), .empty⟩

/-- A worded workspace is flattened to a worded circuit. -/
theorem Worded.flatten (h : w.Worded) : w.flatten.2.Worded := by
  unfold Workspace.flatten
  cases hroot : w.forest[""]? with
  | none =>
    exact ⟨fun e he => absurd (NameMap.mem_values.1 he) (by simp [Circuit.empty, Circuit.titled]),
      .empty⟩
  | some root =>
    have hflat := Expansion.worded_flatten h.expansionSetting (h.forest "" root hroot)
    exact ⟨hflat.elements, hflat.params⟩

/-- The names in the expressions of every compiled circuit are words, whether or not something was
found wrong with it. -/
theorem Worded.circuit (h : w.Worded) (disk : Disk) (label text : String) :
    (w.compile disk label text).2.Worded := by
  have hread := h.readNetlist disk label text
  rw [compile_eq]
  generalize w.readNetlist disk label text = read at hread ⊢
  unfold finishNetlist
  split
  · exact worded_stopped _
  · split
    · exact worded_stopped _
    · have hresolved := hread.resolve
      have hcomplete := hresolved.flatten.complete hresolved.globals
      exact hcomplete

end Workspace

end FlatNet
