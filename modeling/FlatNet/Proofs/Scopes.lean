import FlatNet.Proofs.Accepted
import FlatNet.Proofs.Expansion.FlatName
import FlatNet.Proofs.Expansion.Parameters

/-!
# Scopes of parameters

A parameter defined inside a sub-circuit, and a symbol that nothing defines, get names that end with
the name of the instance.  The definitions of a flat circuit are entered one instance after the
other, and a name that is taken keeps its meaning, whoever has given it.  `scopesSeparate_iff` says
when every instance gets its own definitions and no free symbol is defined by another scope.
-/

set_option autoImplicit false

namespace FlatNet

open Expansion

/-- The expressions in a definition: in the parameters of its elements, in its own parameters and
in the defaults of its formal parameters. -/
def Definition.exprs (d : Definition) : List Expr :=
  d.elements.values.flatMap (fun e => e.params.values) ++ d.params.values ++ d.formals.values

namespace Workspace

/-- The parameters of the flat circuit when some instances of the netlist have been expanded. -/
def paramsAfter (w : Workspace) (os : List Occurrence) : NameMap Expr :=
  os.foldl w.expansionSetting.defineAt w.netlist.params

/-- The netlist has the instance at a place. -/
structure HasInstance (w : Workspace) (o : Occurrence) (i : Instance) : Prop where
  expanded : o ∈ w.expanded
  known : w.expansionSetting.instance? o.outer = some i

/-- An instance of the netlist defines the name as the value. -/
def Defines (w : Workspace) (name : String) (value : Expr) : Prop :=
  ∃ o i, w.HasInstance o i ∧ (name, value) ∈ i.definitions w.globals

/-- An instance of the netlist has met the global parameter. -/
def Meets (w : Workspace) (name : String) : Prop :=
  ∃ o i, w.HasInstance o i ∧ name ∈ i.met w.globals

/-- The name is the flat name of a symbol that is free in an instance of the netlist. -/
def IsFreeName (w : Workspace) (name : String) : Prop :=
  ∃ o i, w.HasInstance o i ∧ ∃ e ∈ i.proto.exprs, ∃ q ∈ e.symbols,
    i.Free w.globals q ∧ name = i.rename q

/-- In the circuit every instance of the netlist has its own definitions, and its free symbols are
defined by no scope. -/
structure ScopesSeparate (w : Workspace) (c : Circuit) : Prop where
  own : ∀ name value, w.Defines name value → c.params[name]? = some value
  free : ∀ name, w.IsFreeName name → c.params.contains name = false

/-- The definitions of an instance agree with those that the netlist, another instance or, if it has
been pulled before, a global parameter gives to their names. -/
structure DefinitionsAgree (w : Workspace) : Prop where
  root : ∀ name value other, w.Defines name value →
    w.netlist.params[name]? = some other → other = value
  instances : ∀ name value other, w.Defines name value → w.Defines name other → other = value
  globals : ∀ before o after i, w.expanded = before ++ o :: after →
    w.expansionSetting.instance? o.outer = some i → ∀ name value other,
      (name, value) ∈ i.definitions w.globals → w.globals.value? name = some other →
        (w.paramsAfter before)[name]? = some other → other = value

/-- No scope takes the name of another one's parameter: definitions under one name agree, and the
flat name of a free symbol is neither defined by the netlist nor by an instance, nor is it a global
parameter that the circuit uses or an instance has met. -/
structure NotCaptured (w : Workspace) (c : Circuit) : Prop where
  own : w.DefinitionsAgree
  free : ∀ name, w.IsFreeName name →
    w.netlist.params.contains name = false ∧ (∀ value, ¬w.Defines name value) ∧
      (w.globals.contains name = true → name ∉ c.usedSymbols ∧ ¬w.Meets name)

variable {w : Workspace} {c : Circuit} {disk : Disk} {label text : String}

/-- A free name is not reserved. -/
theorem IsFreeName.isReserved {name : String} (h : w.IsFreeName name) :
    FlatNet.isReserved name = false := by
  obtain ⟨-, i, -, -, -, q, -, -, rfl⟩ := h
  exact i.isReserved_rename q

/-- When all instances have been expanded, a definition of one stands under its name, unless
something else was there before. -/
theorem getElem?_paramsAfter_expanded {before after : List Occurrence} {o : Occurrence}
    (hsplit : w.expanded = before ++ o :: after) {i : Instance}
    (hinst : w.expansionSetting.instance? o.outer = some i) {d : String × Expr}
    (hd : d ∈ i.definitions w.globals) :
    (w.paramsAfter w.expanded)[d.1]? = some (((w.paramsAfter before)[d.1]?).getD d.2) := by
  unfold paramsAfter
  rw [hsplit, List.foldl_append, List.foldl_cons]
  exact Setting.getElem?_foldl_defineAt_of_getElem? (Setting.getElem?_defineAt_of_mem hinst hd)

/-- What stands under a name after some instances stands there in the end. -/
theorem getElem?_paramsAfter_mono {before after : List Occurrence}
    (hsplit : w.expanded = before ++ after) {name : String} {value : Expr}
    (h : (w.paramsAfter before)[name]? = some value) :
    (w.paramsAfter w.expanded)[name]? = some value := by
  unfold paramsAfter
  rw [hsplit, List.foldl_append]
  exact Setting.getElem?_foldl_defineAt_of_getElem? h

/-- If every instance has its own definitions in the circuit, they agree. -/
theorem definitionsAgree_of_own (hkept : ∀ (name : String) (value : Expr),
      (w.paramsAfter w.expanded)[name]? = some value → c.params[name]? = some value)
    (h : ∀ name value, w.Defines name value → c.params[name]? = some value) :
    w.DefinitionsAgree := by
  -- a name has one meaning in the circuit
  have hone : ∀ name value other, w.Defines name value →
      c.params[name]? = some other → other = value := by
    intro name value other hdefines hother
    rw [h name value hdefines] at hother
    exact (Option.some.inj hother).symm
  refine ⟨fun name value other hdefines hother => ?_, fun name value other hdefines hother => ?_,
    fun before o after i hsplit hinst name value other hmem _ hother => ?_⟩
  · refine hone name value other hdefines (hkept name other ?_)
    exact Setting.getElem?_foldl_defineAt_of_getElem? hother
  · exact hone name value other hdefines (h name other hother)
  · have ho : o ∈ w.expanded := by
      rw [hsplit]
      exact List.mem_append_right before List.mem_cons_self
    exact hone name value other ⟨o, i, ⟨ho, hinst⟩, hmem⟩
      (hkept name other (getElem?_paramsAfter_mono hsplit hother))

/-- What stands under the name of a definition when its instance is expanded agrees with it. -/
theorem DefinitionsAgree.eq_of_before (h : w.DefinitionsAgree) {before after : List Occurrence}
    {o : Occurrence} {i : Instance} (hsplit : w.expanded = before ++ o :: after)
    (hinst : w.expansionSetting.instance? o.outer = some i) {name : String} {value other : Expr}
    (hmem : (name, value) ∈ i.definitions w.globals)
    (hother : (w.paramsAfter before)[name]? = some other) : other = value := by
  have hexpanded : ∀ o' ∈ before ++ [o], o' ∈ w.expanded := by
    intro o' ho'
    rw [hsplit, List.append_cons]
    exact List.mem_append_left after ho'
  have hdefines : w.Defines name value :=
    ⟨o, i, ⟨hexpanded o (List.mem_append_right before List.mem_cons_self), hinst⟩, hmem⟩
  have hglobal := h.globals before o after i hsplit hinst name value other hmem
  cases hnetlist : w.netlist.params[name]? with
  | some first =>
    have hfirst : (w.paramsAfter before)[name]? = some first :=
      Setting.getElem?_foldl_defineAt_of_getElem? hnetlist
    rw [hother] at hfirst
    exact h.root name value other hdefines (hnetlist.trans hfirst.symm)
  | none =>
    cases Setting.adds_of_getElem?_foldl_defineAt hother hnetlist with
    | @own o' i' ho' hinst' hmem' =>
      exact h.instances name value other hdefines
        ⟨o', i', ⟨hexpanded o' (List.mem_append_left [o] ho'), hinst'⟩, hmem'⟩
    | met _ _ hvalue _ => exact hglobal hvalue hother
    | used hvalue _ _ => exact hglobal hvalue hother

/-- If definitions agree, every instance has its own ones in the end. -/
theorem DefinitionsAgree.own (h : w.DefinitionsAgree) {name : String} {value : Expr}
    (hdefines : w.Defines name value) :
    (w.paramsAfter w.expanded)[name]? = some value := by
  obtain ⟨o, i, hi, hmem⟩ := hdefines
  obtain ⟨before, after, hsplit⟩ := List.append_of_mem hi.expanded
  rw [getElem?_paramsAfter_expanded hsplit hi.known hmem]
  cases hother : (w.paramsAfter before)[name]? with
  | none => rfl
  | some other =>
    rw [h.eq_of_before hsplit hi.known hmem hother]
    rfl

/-- A name that is not reserved is defined in the circuit exactly if the netlist or an instance
defines it, or if it is a global parameter that the circuit uses or an instance has met. -/
theorem contains_params_iff (hparams : c.params = w.paramsAfter w.expanded)
    (hground : c.connectedNodes.contains groundNode = true) {name : String}
    (hreserved : isReserved name = false) :
    (c.complete w.globals).1.params.contains name = true ↔
      w.netlist.params.contains name = true ∨ (∃ value, w.Defines name value) ∨
        w.globals.contains name = true ∧
          (name ∈ (c.complete w.globals).1.usedSymbols ∨ w.Meets name) := by
  rw [Circuit.contains_params_complete hground hreserved, hparams]
  constructor
  · rintro (h | ⟨hglobal, hused⟩)
    · obtain ⟨value, hvalue⟩ := NameMap.contains_iff.1 h
      have hpulled : w.globals.value? name = some value → w.globals.contains name = true := by
        intro heq
        rw [Globals.contains, heq]
        rfl
      cases hroot : w.netlist.params[name]? with
      | some first => exact .inl (NameMap.contains_iff.2 ⟨first, hroot⟩)
      | none =>
        cases Setting.adds_of_getElem?_foldl_defineAt hvalue hroot with
        | own ho hinst hmem => exact .inr (.inl ⟨value, _, _, ⟨ho, hinst⟩, hmem⟩)
        | met ho hinst hglobal hmet =>
          exact .inr (.inr ⟨hpulled hglobal, .inr ⟨_, _, ⟨ho, hinst⟩, hmet⟩⟩)
        | @used k v hglobal hk hname =>
          have hstands : c.params[k]? = some v := by
            rw [hparams]
            exact hk
          have hused : name ∈ (c.complete w.globals).1.usedSymbols :=
            Circuit.mem_usedSymbols.2
              ⟨hreserved, .inr ⟨k, v, Circuit.getElem?_params_complete hstands, hname⟩⟩
          exact .inr (.inr ⟨hpulled hglobal, .inl hused⟩)
    · exact .inr (.inr ⟨hglobal, .inl hused⟩)
  · rintro (h | ⟨value, o, i, hi, hmem⟩ | ⟨hglobal, hused | ⟨o, i, hi, hmet⟩⟩)
    · obtain ⟨v, hv⟩ := NameMap.contains_iff.1 h
      exact .inl (NameMap.contains_iff.2 ⟨v, Setting.getElem?_foldl_defineAt_of_getElem? hv⟩)
    · refine .inl (Setting.contains_foldl_defineAt_of_forall hi.expanded fun params => ?_)
      exact NameMap.contains_iff.2 ⟨_, Setting.getElem?_defineAt_of_mem hi.known hmem⟩
    · exact .inr ⟨hglobal, hused⟩
    · refine .inl (Setting.contains_foldl_defineAt_of_forall hi.expanded fun params => ?_)
      exact Setting.contains_defineAt_of_met hi.known hmet hglobal

/-- Scopes are separate exactly if none takes the name of another one's parameter. -/
theorem separate_iff_notCaptured (hparams : c.params = w.paramsAfter w.expanded)
    (hground : c.connectedNodes.contains groundNode = true) :
    w.ScopesSeparate (c.complete w.globals).1 ↔ w.NotCaptured (c.complete w.globals).1 := by
  have hkept : ∀ (name : String) (value : Expr), (w.paramsAfter w.expanded)[name]? = some value →
      (c.complete w.globals).1.params[name]? = some value := fun name value hvalue =>
    Circuit.getElem?_params_complete (by rwa [hparams])
  constructor
  · intro h
    refine ⟨definitionsAgree_of_own hkept h.own, fun name hfree => ?_⟩
    have hnone := mt (contains_params_iff hparams hground hfree.isReserved).2
      (Bool.eq_false_iff.1 (h.free name hfree))
    rw [not_or, not_or] at hnone
    obtain ⟨hnetlist, hdefines, hglobal⟩ := hnone
    refine ⟨Bool.eq_false_iff.2 hnetlist, fun value hvalue => hdefines ⟨value, hvalue⟩, ?_⟩
    exact fun hcontains => not_or.1 fun hany => hglobal ⟨hcontains, hany⟩
  · intro h
    refine ⟨fun name value hdefines => hkept name value (h.own.own hdefines), fun name hfree => ?_⟩
    obtain ⟨hnetlist, hdefines, hglobals⟩ := h.free name hfree
    refine Bool.eq_false_iff.2 fun hcontains => ?_
    rcases (contains_params_iff hparams hground hfree.isReserved).1 hcontains with
      hroot | ⟨value, hvalue⟩ | ⟨hglobal, hused | hmet⟩
    · rw [hnetlist] at hroot
      exact Bool.false_ne_true hroot
    · exact hdefines value hvalue
    · exact (hglobals hglobal).1 hused
    · exact (hglobals hglobal).2 hmet

/-- No name that takes part in the naming of parameters has an underscore: not those of instances,
nor those of parameters and free symbols inside them, nor those of parameters of the netlist and of
global parameters. -/
structure NoUnderscore (w : Workspace) : Prop where
  way : ∀ o ∈ w.expanded, ∀ name ∈ o.path, '_' ∉ name.toList
  own : ∀ o i, w.HasInstance o i → ∀ name : String, i.proto.params.contains name = true →
    '_' ∉ name.toList
  free : ∀ o i, w.HasInstance o i → ∀ e ∈ i.proto.exprs, ∀ q ∈ e.symbols,
    i.Free w.globals q → '_' ∉ q.toList
  root : ∀ name : String, w.netlist.params.contains name = true → '_' ∉ name.toList
  global : ∀ name : String, w.globals.contains name = true → '_' ∉ name.toList

/-- In a netlist that is ready there is one instance at a place. -/
theorem HasInstance.unique (h : w.Ready) {o o' : Occurrence} {i i' : Instance}
    (hi : w.HasInstance o i) (hi' : w.HasInstance o' i') (hpath : o.path = o'.path) : i = i' := by
  have hsame := List.inj_on_of_nodup_map h.nodup_path_expanded hi.expanded hi'.expanded hpath
  have hknown := hi'.known
  rw [← hsame, hi.known] at hknown
  exact Option.some.inj hknown

/-- Inside an instance names are renamed to those of their ways. -/
theorem HasInstance.rename {o : Occurrence} {i : Instance} (hi : w.HasInstance o i)
    (name : String) : i.rename name = flatName (name :: o.path) :=
  (Setting.faithful_of_mem_expanded hi.expanded).rename
    (Setting.instance?_eq_some_iff.1 hi.known).1 name

/-- Without underscores, names inside instances that are renamed alike are one name in one
instance. -/
theorem NoUnderscore.eq_of_rename_eq (hplain : w.NoUnderscore) (h : w.Ready)
    {o o' : Occurrence} {i i' : Instance} (hi : w.HasInstance o i) (hi' : w.HasInstance o' i')
    {name name' : String} (hname : '_' ∉ name.toList) (hname' : '_' ∉ name'.toList)
    (heq : i.rename name = i'.rename name') : i = i' ∧ name = name' := by
  rw [hi.rename, hi'.rename] at heq
  have hways := eq_of_flatName_eq (List.cons_ne_nil _ _) (List.cons_ne_nil _ _)
    (List.forall_mem_cons.2 ⟨hname, hplain.way o hi.expanded⟩)
    (List.forall_mem_cons.2 ⟨hname', hplain.way o' hi'.expanded⟩) heq
  obtain ⟨hsame, hpath⟩ := List.cons.inj hways
  exact ⟨hi.unique h hi' hpath, hsame⟩

/-- Without underscores in the names that take part no scope takes the name of another one's
parameter. -/
theorem NoUnderscore.notCaptured (hplain : w.NoUnderscore) (h : w.Ready) (c : Circuit) :
    w.NotCaptured c := by
  -- a name that an instance defines is that of a parameter inside it
  have hown : ∀ o i, w.HasInstance o i → ∀ name value, (name, value) ∈ i.definitions w.globals →
      ∃ p : String, i.proto.params.contains p = true ∧ '_' ∉ p.toList ∧ name = i.rename p := by
    intro o i hi name value hmem
    obtain ⟨p, v, hv, -, hname, -⟩ := Instance.exists_param_of_mem_definitions hmem
    have hcontains := NameMap.contains_iff.2 ⟨v, hv⟩
    exact ⟨p, hcontains, hplain.own o i hi p hcontains, hname⟩
  have hroot : ∀ i : Instance, ∀ q, w.netlist.params.contains (i.rename q) = false := fun i q =>
    Bool.eq_false_iff.2 fun hcontains => hplain.root _ hcontains (i.underscore_mem_rename q)
  have hglobal : ∀ i : Instance, ∀ q, w.globals.contains (i.rename q) = false := fun i q =>
    Bool.eq_false_iff.2 fun hcontains => hplain.global _ hcontains (i.underscore_mem_rename q)
  refine ⟨⟨?_, ?_, ?_⟩, ?_⟩
  · rintro name value other ⟨o, i, hi, hmem⟩ hother
    obtain ⟨p, -, -, rfl⟩ := hown o i hi name value hmem
    rw [NameMap.contains_eq_false_iff.1 (hroot i p)] at hother
    exact absurd hother (by simp)
  · rintro name value other ⟨o, i, hi, hmem⟩ ⟨o', i', hi', hmem'⟩
    obtain ⟨p, -, hp, hname⟩ := hown o i hi name value hmem
    obtain ⟨p', -, hp', hname'⟩ := hown o' i' hi' name other hmem'
    obtain ⟨rfl, -⟩ := hplain.eq_of_rename_eq h hi hi' hp hp' (hname.symm.trans hname')
    have hentry := List.inj_on_of_nodup_map (i.nodup_definitions w.globals) hmem' hmem rfl
    exact (Prod.mk.inj hentry).2
  · intro before o after i hsplit hinst name value other hmem hvalue _
    have ho : o ∈ w.expanded := by
      rw [hsplit]
      exact List.mem_append_right before List.mem_cons_self
    obtain ⟨p, -, -, rfl⟩ := hown o i ⟨ho, hinst⟩ name value hmem
    have hnot := hglobal i p
    rw [Globals.contains, hvalue] at hnot
    exact absurd hnot (by simp)
  · rintro name ⟨o, i, hi, e, he, q, hq, hfree, rfl⟩
    have hplainq := hplain.free o i hi e he q hq hfree
    refine ⟨hroot i q, ?_, fun hcontains => ?_⟩
    · rintro value ⟨o', i', hi', hmem⟩
      obtain ⟨p, hcontains, hp, hname⟩ := hown o' i' hi' _ value hmem
      obtain ⟨rfl, rfl⟩ := hplain.eq_of_rename_eq h hi hi' hplainq hp hname
      rw [hfree.own] at hcontains
      exact Bool.false_ne_true hcontains
    · rw [hglobal i q] at hcontains
      exact absurd hcontains Bool.false_ne_true

/-- Without underscores in the names that take part, scopes are separate in the circuit of a netlist
without errors. -/
theorem scopesSeparate_of_noUnderscore (h : w.Regular)
    (haccepted : (w.compile disk label text).2.errors = 0)
    (hplain : (w.prepare disk label text).NoUnderscore) :
    (w.prepare disk label text).ScopesSeparate (w.compile disk label text).2 := by
  obtain ⟨hready, hcircuit⟩ := ready_of_accepted h haccepted
  rw [hcircuit]
  refine (separate_iff_notCaptured hready.flatten_spec.2 (connected_of_accepted h haccepted)).2 ?_
  exact hplain.notCaptured hready _

/-- In a netlist that is compiled without errors in a regular workspace, as all are that come about,
the definitions and copies of every instance say what is meant in it, and a free symbol means its
renamed self.  Every instance has its own definitions, and no free symbol one of another scope,
exactly if no scope takes the name of another one's parameter. -/
theorem scopesSeparate_iff (h : w.Regular) (disk : Disk) (label text : String)
    (haccepted : (w.compile disk label text).2.errors = 0) :
    let r := w.prepare disk label text
    (∀ o i, r.HasInstance o i →
      (∀ (name : String) (value : Expr), i.proto.params[name]? = some value →
        i.proto.formals.contains name = false →
          ∃ outer, r.Defines (flatName (name :: o.path)) outer ∧
            i.MeansExpr r.globals value outer) ∧
      (∀ l ∈ r.expansionSetting.inside o,
        i.ParamsMean r.globals l.inner.params l.outer.params) ∧
      ∀ q, i.Free r.globals q →
        (∀ v, i.Means r.globals q v ↔ v = .sym (flatName (q :: o.path))) ∧
        ∀ e outer, i.MeansExpr r.globals e outer → q ∈ e.symbols →
          flatName (q :: o.path) ∈ outer.symbols) ∧
      (r.ScopesSeparate (w.compile disk label text).2 ↔
        r.NotCaptured (w.compile disk label text).2) := by
  obtain ⟨hready, hcircuit⟩ := ready_of_accepted h haccepted
  refine ⟨fun o i hi => ?_, ?_⟩
  · refine ⟨fun name value hvalue hformal => ?_, fun l hl => ?_, fun q hfree => ?_⟩
    · obtain ⟨outer, hmem, hmeans⟩ := Instance.mem_definitions_spec hvalue hformal
      rw [hi.rename] at hmem
      exact ⟨outer, ⟨o, i, hi, hmem⟩, hmeans⟩
    · rw [Setting.inside_of_instance? hi.known] at hl
      obtain ⟨copy, hcopy, rfl⟩ := List.mem_map.1 hl
      exact Instance.paramsMean_of_mem_copies hcopy
    · rw [← hi.rename]
      exact ⟨fun v => hfree.means_iff, fun e outer hmeans hq => hmeans.mem_symbols_of_free hfree hq⟩
  · rw [hcircuit]
    exact separate_iff_notCaptured hready.flatten_spec.2 (connected_of_accepted h haccepted)

/-- A netlist that gives its own parameter the flat name of one inside its instance. -/
def capturedText : String :=
  "t\n.param p_X1=5\n.subckt P a b\n.param p=1\nR1 a b \x7bp\x7d\n.ends\nX1 1 0 P\n.end\n"

set_option maxRecDepth 100000 in
/-- The netlist with a captured parameter is accepted. -/
theorem accepted_captured : (bare.compile Disk.empty "main.cir" capturedText).2.errors = 0 := by
  refine errors_compile_eq_zero ?_ ?_ ?_
  · decide +kernel
  · decide +kernel
  · exact contains_connectedNodes_flatten "R1_X1" groundNode (by decide +kernel) (by decide +kernel)

/-- What is said of accepted netlists holds of this one. -/
theorem scopesSeparate_iff_captured :
    bare.Regular ∧ (bare.compile Disk.empty "main.cir" capturedText).2.errors = 0 ∧
      ((bare.prepare Disk.empty "main.cir" capturedText).ScopesSeparate
          (bare.compile Disk.empty "main.cir" capturedText).2 ↔
        (bare.prepare Disk.empty "main.cir" capturedText).NotCaptured
          (bare.compile Disk.empty "main.cir" capturedText).2) := by
  have hregular : bare.Regular := regular_withBuiltin {} Library.regular_empty
  obtain ⟨-, hiff⟩ :=
    scopesSeparate_iff hregular Disk.empty "main.cir" capturedText accepted_captured
  exact ⟨hregular, accepted_captured, hiff⟩

set_option maxRecDepth 100000 in
/-- Its own parameter `p_X1` takes the place of the parameter `p` inside the instance. -/
theorem not_scopesSeparate_captured :
    (bare.compile Disk.empty "main.cir" capturedText).2.errors = 0 ∧
      ¬(bare.prepare Disk.empty "main.cir" capturedText).ScopesSeparate
        (bare.compile Disk.empty "main.cir" capturedText).2 := by
  have hregular : bare.Regular := regular_withBuiltin {} Library.regular_empty
  refine ⟨accepted_captured, fun h => ?_⟩
  obtain ⟨hready, hcircuit⟩ := ready_of_accepted hregular accepted_captured
  have hany : ((bare.prepare Disk.empty "main.cir" capturedText).expanded.any fun o =>
      ((bare.prepare Disk.empty "main.cir" capturedText).expansionSetting.instance? o.outer).any
        fun i => (i.definitions (bare.prepare Disk.empty "main.cir" capturedText).globals).any
          fun d => d.1 == "p_X1" && d.2.text == "1") = true := by decide +kernel
  have hroot : ((bare.prepare Disk.empty "main.cir" capturedText).netlist.params["p_X1"]?).any
      (fun v => v.text == "5") = true := by decide +kernel
  obtain ⟨o, ho, hinst⟩ := List.any_eq_true.1 hany
  obtain ⟨i, hi, hdef⟩ := (Option.any_eq_true _ _).1 hinst
  obtain ⟨d, hd, hboth⟩ := List.any_eq_true.1 hdef
  obtain ⟨hname, hone⟩ := Bool.and_eq_true_iff.1 hboth
  obtain ⟨v, hv, hfive⟩ := (Option.any_eq_true _ _).1 hroot
  -- the instance defines `p_X1` as 1, and the circuit as 5
  have hown := h.own d.1 d.2 ⟨o, i, ⟨ho, hi⟩, hd⟩
  have hstands : (bare.compile Disk.empty "main.cir" capturedText).2.params[d.1]? = some v := by
    rw [hcircuit, eq_of_beq hname]
    refine Circuit.getElem?_params_complete ?_
    rw [hready.flatten_spec.2]
    exact Setting.getElem?_foldl_defineAt_of_getElem? hv
  rw [hstands] at hown
  rw [← Option.some.inj hown, eq_of_beq hfive] at hone
  exact absurd hone (by decide)

end Workspace

end FlatNet
