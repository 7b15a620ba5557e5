import FlatNet.Proofs.Instance.Binding

/-!
# What an instance defines

The parameters of copies are what the parameters of the sub-circuit's elements mean in the
instance.  `Instance.definitions` lists the parameters defined inside the sub-circuit, apart from
formal ones, each under its flat name and with what its value means; `Instance.met` lists the global
parameters that have been met.  An instance adds the definitions that are new, then pulls the global
parameters it has met.
-/

set_option autoImplicit false

namespace FlatNet.Instance

/-- The definitions that a row of parameters of the sub-circuit gives rise to. -/
def defineAll (i : Instance) (g : Globals) (m : Memo) :
    List (String × Expr) → List (String × Expr) × Memo
  | [] => ([], m)
  | (name, value) :: rest =>
    if i.proto.formals.contains name then defineAll i g m rest
    else
      let (outer, m) := i.outside g m value
      let (definitions, m) := defineAll i g m rest
      ((i.rename name, outer) :: definitions, m)

/-- The parameters defined inside the sub-circuit, apart from formal ones, as definitions of the
flat circuit. -/
def definitions (i : Instance) (g : Globals) : List (String × Expr) :=
  (i.defineAll g (i.memo g) i.proto.params.toList).1

/-- The global parameters that are met in the instance. -/
def met (i : Instance) (g : Globals) : List String :=
  (i.defineAll g (i.memo g) i.proto.params.toList).2.globals.toList

/-- What a row of parameters inside means outside. -/
def ParamsMean (i : Instance) (g : Globals) (inner outer : NameMap Expr) : Prop :=
  (∀ name : String, name ∈ outer ↔ name ∈ inner) ∧
    ∀ (name : String) (e e' : Expr), inner[name]? = some e → outer[name]? = some e' →
      i.MeansExpr g e e'

variable {i : Instance} {g : Globals} {m : Memo}

/-- Every parameter inside has a value outside, and this is what its own value means. -/
theorem ParamsMean.exists_means {inner outer : NameMap Expr} (h : i.ParamsMean g inner outer)
    {name : String} {e : Expr} (he : inner[name]? = some e) :
    ∃ e', outer[name]? = some e' ∧ i.MeansExpr g e e' := by
  have hmem : name ∈ outer :=
    (h.1 name).2 (Std.ExtTreeMap.mem_iff_isSome_getElem?.2 (Option.isSome_of_eq_some he))
  obtain ⟨e', he'⟩ := Option.isSome_iff_exists.1 (Std.ExtTreeMap.mem_iff_isSome_getElem?.1 hmem)
  exact ⟨e', he', h.2 name e e' he he'⟩

/-- An expression is turned into what it means. -/
theorem outside_spec (hm : m.Valid i g) (e : Expr) :
    i.MeansExpr g e (i.outside g m e).1 ∧ (i.outside g m e).2.Valid i g := by
  obtain ⟨hmeans, hvalid⟩ := resolveAll_spec
    (fun m name hm hp => resolve_spec i.proto.formals m name hm hp) e.symbols.toList
    (fun name _ => i.pending_formals name) hm ∅ (fun q v hv => absurd hv (by simp))
  have hbound : ∀ q ∈ e.symbols,
      ((i.resolveAll g i.proto.formals m e.symbols.toList ∅).1[q]?).isSome = true := fun q hq =>
    isSome_resolveAll _ m _ ∅ (.inl (Std.ExtTreeSet.mem_toList.2 hq))
  exact ⟨⟨_, hbound, hmeans, rfl⟩, hvalid⟩

/-- A row of parameters is turned into what it means, one after the other. -/
theorem foldl_outside_spec {params : NameMap Expr} (entries : List (String × Expr))
    (hentries : ∀ entry ∈ entries, params[entry.1]? = some entry.2) (done : NameMap Expr)
    (hdone : ∀ (name : String) (e' : Expr), done[name]? = some e' →
      ∃ e, params[name]? = some e ∧ i.MeansExpr g e e') (hm : m.Valid i g) :
    let result := entries.foldl
      (fun (state : NameMap Expr × Memo) (entry : String × Expr) =>
        let (value, m) := i.outside g state.2 entry.2
        (state.1.insert entry.1 value, m)) (done, m)
    (∀ (name : String) (e' : Expr), result.1[name]? = some e' →
      ∃ e, params[name]? = some e ∧ i.MeansExpr g e e') ∧ result.2.Valid i g := by
  induction entries generalizing done m with
  | nil => exact ⟨hdone, hm⟩
  | cons entry rest ih =>
    obtain ⟨hentry, hrest⟩ := List.forall_mem_cons.1 hentries
    obtain ⟨hmeans, hvalid⟩ := outside_spec hm entry.2
    rw [List.foldl_cons]
    refine ih hrest _ (fun name e' he' => ?_) hvalid
    rcases NameMap.getElem?_of_insert he' with ⟨rfl, rfl⟩ | hold
    · exact ⟨entry.2, hentry, hmeans⟩
    · exact hdone name e' hold

/-- Parameters are turned into what they mean. -/
theorem outsideAll_spec (hm : m.Valid i g) (params : NameMap Expr) :
    i.ParamsMean g params (i.outsideAll g m params).1 ∧
      (i.outsideAll g m params).2.Valid i g := by
  obtain ⟨hmeans, hvalid⟩ := foldl_outside_spec params.toList
    (fun entry hentry => Std.ExtTreeMap.mem_toList_iff_getElem?_eq_some.1 hentry) ∅
    (fun name e' he' => absurd he' (by simp)) hm
  refine ⟨⟨fun name => mem_outsideAll, fun name e e' he he' => ?_⟩, hvalid⟩
  obtain ⟨e₀, he₀, hmean⟩ := hmeans name e' he'
  rw [he] at he₀
  rwa [Option.some.inj he₀]

/-- The parameters of copies are what those of the copied elements mean. -/
theorem copyAll_spec (hm : m.Valid i g) (es : List Element) :
    (∀ c ∈ (i.copyAll g m es).1, i.ParamsMean g c.1.params c.2.params) ∧
      (i.copyAll g m es).2.Valid i g := by
  induction es generalizing m with
  | nil => exact ⟨fun c hc => absurd hc List.not_mem_nil, hm⟩
  | cons e rest ih =>
    obtain ⟨hmean, hvalid⟩ := outsideAll_spec hm e.params
    obtain ⟨hrest, hlast⟩ := ih (m := (i.copy g m e).2) hvalid
    exact ⟨List.forall_mem_cons.2 ⟨hmean, hrest⟩, hlast⟩

/-- The parameters of the copies of an instance are what those of its sub-circuit's elements
mean. -/
theorem paramsMean_of_mem_copies {c : Element × Element} (hc : c ∈ i.copies g) :
    i.ParamsMean g c.1.params c.2.params :=
  (copyAll_spec Memo.valid_empty _).1 c hc

/-- Definitions stand for the parameters they are made from, one for one. -/
theorem defineAll_spec (hm : m.Valid i g) (entries : List (String × Expr)) :
    (∀ d ∈ (i.defineAll g m entries).1, ∃ entry ∈ entries,
      i.proto.formals.contains entry.1 = false ∧ d.1 = i.rename entry.1 ∧
        i.MeansExpr g entry.2 d.2) ∧
      (i.defineAll g m entries).1.map Prod.fst =
        ((entries.map Prod.fst).filter fun name => !i.proto.formals.contains name).map i.rename ∧
      (i.defineAll g m entries).2.Valid i g := by
  induction entries generalizing m with
  | nil => exact ⟨fun d hd => absurd hd List.not_mem_nil, rfl, hm⟩
  | cons entry rest ih =>
    obtain ⟨name, value⟩ := entry
    unfold defineAll
    split
    · rename_i hformal
      obtain ⟨hdefs, hnames, hvalid⟩ := ih hm
      refine ⟨fun d hd => ?_, ?_, hvalid⟩
      · obtain ⟨entry, hentry, hspec⟩ := hdefs d hd
        exact ⟨entry, List.mem_cons_of_mem _ hentry, hspec⟩
      · rw [hnames, List.map_cons, List.filter_cons_of_neg (by rw [hformal]; simp)]
    · rename_i hformal
      have hformal := Bool.eq_false_iff.2 hformal
      obtain ⟨hmeans, hnext⟩ := outside_spec hm value
      obtain ⟨hdefs, hnames, hvalid⟩ := ih hnext
      refine ⟨fun d hd => ?_, ?_, hvalid⟩
      · rcases List.mem_cons.1 hd with rfl | hd
        · exact ⟨(name, value), List.mem_cons_self, hformal, rfl, hmeans⟩
        · obtain ⟨entry, hentry, hspec⟩ := hdefs d hd
          exact ⟨entry, List.mem_cons_of_mem _ hentry, hspec⟩
      · dsimp only
        rw [List.map_cons, hnames, List.map_cons, List.filter_cons_of_pos (by rw [hformal]; rfl)]
        rfl

/-- Renaming keeps names apart. -/
theorem rename_injective (i : Instance) : Function.Injective i.rename := by
  intro name other h
  have hlists := congrArg String.toList h
  unfold rename at hlists
  rw [String.toList_append, String.toList_append, String.toList_append, String.toList_append,
    List.append_assoc, List.append_assoc] at hlists
  exact String.toList_inj.1 (List.append_cancel_right hlists)

/-- The definitions of an instance have different names. -/
theorem nodup_definitions (i : Instance) (g : Globals) :
    ((i.definitions g).map Prod.fst).Nodup := by
  have hvalid := (copyAll_spec (i := i) (g := g) Memo.valid_empty i.proto.elements.values).2
  have hnames := (defineAll_spec hvalid i.proto.params.toList).2.1
  change (i.definitions g).map Prod.fst = _ at hnames
  rw [hnames]
  exact ((NameMap.nodup_map_fst_toList i.proto.params).filter _).map i.rename_injective

/-- Every parameter defined inside the sub-circuit that is no formal one has a definition, and it
says what the parameter's value means. -/
theorem mem_definitions_spec {name : String} {value : Expr}
    (hvalue : i.proto.params[name]? = some value)
    (hformal : i.proto.formals.contains name = false) :
    ∃ outer, (i.rename name, outer) ∈ i.definitions g ∧ i.MeansExpr g value outer := by
  have hvalid := (copyAll_spec (i := i) (g := g) Memo.valid_empty i.proto.elements.values).2
  obtain ⟨hdefs, hnames, -⟩ := defineAll_spec hvalid i.proto.params.toList
  have hentry : (name, value) ∈ i.proto.params.toList :=
    Std.ExtTreeMap.mem_toList_iff_getElem?_eq_some.2 hvalue
  have hmem : i.rename name ∈ (i.definitions g).map Prod.fst := by
    change (i.definitions g).map Prod.fst = _ at hnames
    rw [hnames]
    refine List.mem_map_of_mem (List.mem_filter.2 ⟨List.mem_map_of_mem hentry, ?_⟩)
    rw [hformal]
    rfl
  obtain ⟨d, hd, hname⟩ := List.mem_map.1 hmem
  obtain ⟨entry, hother, -, hrename, hmeans⟩ := hdefs d hd
  have hsame : entry.1 = name := i.rename_injective (hrename.symm.trans hname)
  have hget := Std.ExtTreeMap.mem_toList_iff_getElem?_eq_some.1 hother
  rw [hsame, hvalue] at hget
  refine ⟨d.2, ?_, ?_⟩
  · rw [← hname]
    exact hd
  · rw [Option.some.inj hget]
    exact hmeans

/-- Every definition is made from a parameter that is no formal one. -/
theorem exists_param_of_mem_definitions {d : String × Expr} (hd : d ∈ i.definitions g) :
    ∃ (name : String) (value : Expr), i.proto.params[name]? = some value ∧
      i.proto.formals.contains name = false ∧ d.1 = i.rename name ∧ i.MeansExpr g value d.2 := by
  have hvalid := (copyAll_spec (i := i) (g := g) Memo.valid_empty i.proto.elements.values).2
  obtain ⟨entry, hentry, hformal, hname, hmeans⟩ :=
    (defineAll_spec hvalid i.proto.params.toList).1 d hd
  exact ⟨entry.1, entry.2, Std.ExtTreeMap.mem_toList_iff_getElem?_eq_some.1 hentry, hformal, hname,
    hmeans⟩

/-- A formal parameter is not defined anew. -/
theorem addParam_of_formal {name : String} (h : i.proto.formals.contains name = true)
    (state : NameMap Expr × Memo) (value : Expr) : i.addParam g state name value = state := by
  unfold addParam
  rw [h]
  rfl

/-- An own parameter is defined under its new name, unless that is taken. -/
theorem addParam_of_not_formal {name : String} (h : i.proto.formals.contains name = false)
    (state : NameMap Expr × Memo) (value : Expr) :
    i.addParam g state name value =
      (state.1.insertIfNew (i.rename name) (i.outside g state.2 value).1,
        (i.outside g state.2 value).2) := by
  unfold addParam
  rw [h]
  rfl

/-- Definitions are added one by one. -/
theorem foldl_addParam (entries : List (String × Expr)) (params : NameMap Expr) (m : Memo) :
    entries.foldl (fun state (name, value) => i.addParam g state name value) (params, m) =
      ((i.defineAll g m entries).1.foldl (fun params d => params.insertIfNew d.1 d.2) params,
        (i.defineAll g m entries).2) := by
  induction entries generalizing params m with
  | nil => rfl
  | cons entry rest ih =>
    obtain ⟨name, value⟩ := entry
    rw [List.foldl_cons]
    dsimp only
    cases hformal : i.proto.formals.contains name with
    | true =>
      rw [addParam_of_formal hformal, ih, defineAll, hformal]
      rfl
    | false =>
      rw [addParam_of_not_formal hformal, ih, defineAll, hformal]
      rfl

/-- An instance adds its definitions where there are none, then the global parameters it has met. -/
theorem define_eq (i : Instance) (g : Globals) (params : NameMap Expr) :
    i.define g params =
      g.pull (i.met g)
        ((i.definitions g).foldl (fun params d => params.insertIfNew d.1 d.2) params) := by
  unfold define addParams
  rw [foldl_addParam]
  rfl

end FlatNet.Instance
