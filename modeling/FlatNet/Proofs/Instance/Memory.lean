import FlatNet.Proofs.Instance.Definitions

/-!
# What an instance remembers

The memory of resolved symbols is handed on from one expression of a sub-circuit to the next.  It
only grows: what has been resolved keeps its value, although a parameter that leads back to itself
is noted twice while its default is being resolved.  So everything that an instance translates is
translated by one substitution, `Instance.known`, the memory at the end.

A symbol that an expression needs, itself or through defaults, is remembered in the end, and if it
is a global parameter, it has been met.
-/

set_option autoImplicit false

namespace FlatNet

namespace Instance

/-- The symbol is a global parameter, and neither the sub-circuit nor the instance defines it. -/
structure IsGlobal (i : Instance) (g : Globals) (name : String) : Prop where
  reserved : isReserved name = false
  actual : i.element.params[name]? = none
  formal : i.proto.formals.contains name = false
  own : i.proto.params.contains name = false
  global : g.contains name = true

/-- The symbols that have to be resolved for an expression: its own, and with a formal parameter
that the instance does not set, those of its default. -/
inductive Needs (i : Instance) (e : Expr) : String → Prop
  | direct {q : String} (hq : q ∈ e.symbols) : Needs i e q
  | default {f q : String} (hf : Needs i e f) (hq : i.DefaultUses f q) : Needs i e q

namespace Memo

/-- The symbol has been resolved. -/
def Knows (m : Memo) (q : String) : Prop := ∃ v, m.resolved[q]? = some v

/-- The other memory has the same values for the symbols of this one, and all its globals. -/
structure Within (m m' : Memo) : Prop where
  resolved : ∀ (q : String) (v : Expr), m.resolved[q]? = some v → m'.resolved[q]? = some v
  globals : ∀ q ∈ m.globals, q ∈ m'.globals

/-- With a formal parameter whose default is not being resolved the memory has all symbols of its
default, and the global parameters that it has are noted. -/
structure Closed (m : Memo) (i : Instance) (g : Globals) (defaults : NameMap Expr) : Prop where
  defaults : ∀ f q, m.Knows f → defaults.contains f = true → i.DefaultUses f q → m.Knows q
  globals : ∀ q, m.Knows q → i.IsGlobal g q → q ∈ m.globals

variable {i : Instance} {g : Globals} {defaults : NameMap Expr} {m m' m'' : Memo} {name : String}
  {value : Expr}

/-- A memory has its own values. -/
theorem Within.refl (m : Memo) : m.Within m := ⟨fun _ _ h => h, fun _ h => h⟩

/-- What is kept of a memory twice is kept. -/
theorem Within.trans (h : m.Within m') (h' : m'.Within m'') : m.Within m'' :=
  ⟨fun q v hv => h'.resolved q v (h.resolved q v hv), fun q hq => h'.globals q (h.globals q hq)⟩

/-- A memory that keeps another one knows what that one knows. -/
theorem Within.knows (h : m.Within m') {q : String} (hq : m.Knows q) : m'.Knows q := by
  obtain ⟨v, hv⟩ := hq
  exact ⟨v, h.resolved q v hv⟩

/-- Noting a symbol that was unknown at first loses nothing. -/
theorem Within.note (h : m.Within m') (hnone : m.resolved[name]? = none) :
    m.Within (m'.note name value) where
  resolved := by
    intro q v hv
    have hne : name ≠ q := by
      rintro rfl
      rw [hnone] at hv
      exact absurd hv (by simp)
    exact (NameMap.getElem?_insert_of_ne hne value).trans (h.resolved q v hv)
  globals := h.globals

/-- What is noted is remembered with its value. -/
theorem getElem?_note (m : Memo) (name : String) (value : Expr) :
    (m.note name value).resolved[name]? = some value := Std.ExtTreeMap.getElem?_insert_self

/-- A memory knows what has been noted and what it knew before. -/
theorem knows_note {q : String} : (m.note name value).Knows q ↔ q = name ∨ m.Knows q := by
  constructor
  · rintro ⟨v, hv⟩
    rcases NameMap.getElem?_of_insert hv with ⟨rfl, -⟩ | hold
    · exact .inl rfl
    · exact .inr ⟨v, hold⟩
  · intro h
    by_cases hname : q = name
    · exact ⟨value, hname ▸ m.getElem?_note name value⟩
    · obtain ⟨v, hv⟩ := h.resolve_left hname
      exact ⟨v, (NameMap.getElem?_insert_of_ne (fun heq => hname heq.symm) value).trans hv⟩

/-- The empty memory is closed: it has resolved nothing. -/
theorem closed_empty : Memo.empty.Closed i g defaults where
  defaults := by
    rintro f q ⟨v, hv⟩
    exact absurd hv (by simp [Memo.empty])
  globals := by
    rintro q ⟨v, hv⟩
    exact absurd hv (by simp [Memo.empty])

/-- While fewer defaults are left, less is asked of the memory. -/
theorem Closed.erase (h : m.Closed i g defaults) (name : String) :
    m.Closed i g (defaults.erase name) where
  defaults := by
    intro f q hf hleft huses
    obtain ⟨d, hd⟩ := NameMap.contains_iff.1 hleft
    exact h.defaults f q hf (NameMap.contains_iff.2 ⟨d, NameMap.getElem?_of_erase hd⟩) huses
  globals := h.globals

/-- A symbol may be noted when the symbols of its default are known, if it has one, and when it has
been noted as a global parameter, if it is one. -/
theorem Closed.note (h : m.Closed i g (defaults.erase name))
    (hdefault : defaults.contains name = true → ∀ q, i.DefaultUses name q → m.Knows q)
    (hglobal : i.IsGlobal g name → name ∈ m.globals) (value : Expr) :
    (m.note name value).Closed i g defaults where
  defaults := by
    intro f q hf hleft huses
    rw [knows_note] at hf ⊢
    by_cases hname : f = name
    · subst hname
      exact .inr (hdefault hleft q huses)
    · obtain ⟨d, hd⟩ := NameMap.contains_iff.1 hleft
      have hleft : (defaults.erase name).contains f = true := by
        refine NameMap.contains_iff.2 ⟨d, ?_⟩
        rw [Std.ExtTreeMap.getElem?_erase, if_neg]
        · exact hd
        · exact fun heq => hname (Std.LawfulEqCmp.compare_eq_iff_eq.1 heq).symm
      exact .inr (h.defaults f q (hf.resolve_left hname) hleft huses)
  globals := by
    intro q hq hisGlobal
    rcases knows_note.1 hq with rfl | hq
    · exact hglobal hisGlobal
    · exact h.globals q hq hisGlobal

/-- Noting a global parameter that has been met loses nothing. -/
theorem Closed.meet (h : m.Closed i g defaults) (name : String) :
    Closed { m with globals := m.globals.insert name } i g defaults where
  defaults := h.defaults
  globals := fun q hq hglobal => Std.ExtTreeSet.mem_insert.2 (.inr (h.globals q hq hglobal))

end Memo

/-- What resolving a symbol does to the memory: it keeps what it has and gets the symbol's value. -/
structure Learns (i : Instance) (g : Globals) (defaults : NameMap Expr) (m : Memo) (name : String)
    (result : Expr × Memo) : Prop where
  within : m.Within result.2
  closed : result.2.Closed i g defaults
  known : result.2.resolved[name]? = some result.1

variable {i : Instance} {g : Globals} {m : Memo}

/-- Resolving several symbols puts their values into the memory, if resolving one does. -/
theorem resolveAll_learns {defaults : NameMap Expr}
    (hresolve : ∀ (m : Memo) (name : String), m.Closed i g defaults →
      i.Learns g defaults m name (i.resolve g defaults m name))
    (names : List String) {m : Memo} (hm : m.Closed i g defaults) (bindings : NameMap Expr)
    (hbindings : ∀ (q : String) (v : Expr), bindings[q]? = some v → m.resolved[q]? = some v) :
    let result := i.resolveAll g defaults m names bindings
    m.Within result.2 ∧ result.2.Closed i g defaults ∧
      ∀ (q : String) (v : Expr), result.1[q]? = some v → result.2.resolved[q]? = some v := by
  induction names generalizing m bindings with
  | nil =>
    rw [resolveAll]
    exact ⟨.refl m, hm, hbindings⟩
  | cons name rest ih =>
    obtain ⟨hwithin, hclosed, hknown⟩ := hresolve m name hm
    rw [resolveAll]
    obtain ⟨hrest, hlast, hbound⟩ := ih hclosed
      (bindings.insert name (i.resolve g defaults m name).1) fun q v hv => by
        rcases NameMap.getElem?_of_insert hv with ⟨rfl, rfl⟩ | hold
        · exact hknown
        · exact hwithin.resolved q v (hbindings q v hold)
    exact ⟨hwithin.trans hrest, hlast, hbound⟩

/-- A symbol is noted behind what has been learnt for it. -/
theorem Learns.note {defaults : NameMap Expr} {m' : Memo} {name : String} (hwithin : m.Within m')
    (hnone : m.resolved[name]? = none) (hclosed : m'.Closed i g (defaults.erase name))
    (hdefault : defaults.contains name = true → ∀ q, i.DefaultUses name q → m'.Knows q)
    (hglobal : i.IsGlobal g name → name ∈ m'.globals) (value : Expr) :
    i.Learns g defaults m name (value, m'.note name value) :=
  ⟨hwithin.note hnone, hclosed.note hdefault hglobal value, m'.getElem?_note name value⟩

/-- Resolving a symbol puts its value into the memory. -/
theorem resolve_learns (defaults : NameMap Expr)
    (hleft : ∀ (f : String) (d : Expr), defaults[f]? = some d → i.proto.formals[f]? = some d)
    (m : Memo) (name : String) (hm : m.Closed i g defaults) :
    i.Learns g defaults m name (i.resolve g defaults m name) := by
  induction hsize : defaults.size using Nat.strongRecOn generalizing defaults m name with
  | ind size ih =>
  have hresolves := i.resolves_resolve g defaults m name
  generalize i.resolve g defaults m name = result at hresolves ⊢
  have hplain : (∀ q, ¬i.DefaultUses name q) ∨ defaults[name]? = none →
      defaults.contains name = true → ∀ q, i.DefaultUses name q → m.Knows q := by
    rintro (hnever | hnone) hcontains q huses
    · exact absurd huses (hnever q)
    · rw [NameMap.contains_eq_false_iff.2 hnone] at hcontains
      exact absurd hcontains Bool.false_ne_true
  cases hresolves with
  | known hknown => exact ⟨.refl m, hm, hknown⟩
  | reserved hunknown hreserved =>
    refine .note (.refl m) hunknown (hm.erase name) (hplain (.inl fun q huses => ?_))
      (fun h => ?_) _
    · exact absurd hreserved (by simp [huses.1])
    · exact absurd hreserved (by simp [h.reserved])
  | actual hunknown _ hactual =>
    refine .note (.refl m) hunknown (hm.erase name) (hplain (.inl fun q huses => ?_))
      (fun h => ?_) _
    · exact absurd hactual (by simp [huses.2.1])
    · exact absurd hactual (by simp [h.actual])
  | @default default bindings m' hunknown _ _ hdefault hall =>
    have hfewer : ∀ (f : String) (d : Expr), (defaults.erase name)[f]? = some d →
        i.proto.formals[f]? = some d :=
      fun f d hd => hleft f d (NameMap.getElem?_of_erase hd)
    have hformal := hleft name default hdefault
    obtain ⟨hwithin, hclosed, hbound⟩ := resolveAll_learns
      (fun m' q hm' => ih (defaults.erase name).size (hsize ▸ size_erase_lt hdefault)
        (defaults.erase name) hfewer m' q hm' rfl)
      default.symbols.toList (hm.erase name) ∅ (fun q v hv => absurd hv (by simp))
    rw [hall] at hwithin hclosed hbound
    refine .note hwithin hunknown hclosed (fun _ q huses => ?_) (fun h => ?_) _
    · obtain ⟨-, -, d, hd, hq⟩ := huses
      obtain rfl : default = d := Option.some.inj (hformal.symm.trans hd)
      have hsome := isSome_resolveAll (i := i) (g := g) (defaults.erase name) m
        default.symbols.toList ∅ (.inl (Std.ExtTreeSet.mem_toList.2 hq))
      rw [hall] at hsome
      obtain ⟨v, hv⟩ := Option.isSome_iff_exists.1 hsome
      exact ⟨v, hbound q v hv⟩
    · rw [NameMap.contains_eq_false_iff.1 h.formal] at hformal
      exact absurd hformal (by simp)
  | kept hunknown _ _ hdefault hown =>
    refine .note (.refl m) hunknown (hm.erase name) (hplain (.inr hdefault)) (fun h => ?_) _
    rw [h.formal, h.own] at hown
    exact absurd hown (by simp)
  | global hunknown _ _ hdefault _ _ _ =>
    refine .note ?_ hunknown ((hm.erase name).meet name) (hplain (.inr hdefault))
      (fun _ => Std.ExtTreeSet.mem_insert_self) _
    exact ⟨fun _ _ h => h, fun q hq => Std.ExtTreeSet.mem_insert.2 (.inr hq)⟩
  | free hunknown hdefault hfree =>
    refine .note (.refl m) hunknown (hm.erase name) (hplain (.inr hdefault)) (fun h => ?_) _
    exact absurd h.global (by simp [hfree.global])

/-! ## Expressions -/

/-- The memory when several expressions have been translated. -/
def learn (i : Instance) (g : Globals) (m : Memo) (es : List Expr) : Memo :=
  es.foldl (fun m e => (i.outside g m e).2) m

/-- What is not a formal parameter among definitions of the sub-circuit. -/
def ownEntries (i : Instance) (entries : List (String × Expr)) : List (String × Expr) :=
  entries.filter fun d => !i.proto.formals.contains d.1

/-- The expressions of the sub-circuit that an instance translates, in order: those of its elements
and those of its own parameters that are no formal ones. -/
def translated (i : Instance) : List Expr :=
  i.proto.elements.values.flatMap (fun e => e.params.values) ++
    (i.ownEntries i.proto.params.toList).map Prod.snd

/-- What is known of symbols when an instance has translated everything. -/
def known (i : Instance) (g : Globals) : Memo := i.learn g .empty i.translated

/-- Two lists of expressions are translated one after the other. -/
theorem learn_append (i : Instance) (g : Globals) (m : Memo) (es es' : List Expr) :
    i.learn g m (es ++ es') = i.learn g (i.learn g m es) es' := List.foldl_append

/-- An expression is translated by what is known behind it, and by every memory that knows more. -/
theorem outside_learns (hm : m.Closed i g i.proto.formals) (e : Expr) :
    let result := i.outside g m e
    m.Within result.2 ∧ result.2.Closed i g i.proto.formals ∧ (∀ q ∈ e.symbols, result.2.Knows q) ∧
      ∀ m' : Memo, result.2.Within m' → result.1 = e.subst m'.resolved := by
  obtain ⟨hwithin, hclosed, hbound⟩ := resolveAll_learns
    (resolve_learns i.proto.formals fun _ _ h => h) e.symbols.toList hm ∅
    (fun q v hv => absurd hv (by simp))
  have hvalue : ∀ q ∈ e.symbols,
      ∃ v, (i.resolveAll g i.proto.formals m e.symbols.toList ∅).1[q]? = some v := fun q hq =>
    Option.isSome_iff_exists.1 (isSome_resolveAll _ m _ ∅ (.inl (Std.ExtTreeSet.mem_toList.2 hq)))
  refine ⟨hwithin, hclosed, fun q hq => ?_, fun m' hm' => Expr.subst_congr e fun q hq => ?_⟩
  · obtain ⟨v, hv⟩ := hvalue q hq
    exact ⟨v, hbound q v hv⟩
  · obtain ⟨v, hv⟩ := hvalue q (Expr.mem_symbols.2 hq)
    rw [hv, hm'.resolved q v (hbound q v hv)]

/-- Translating expressions loses nothing, and all their symbols are known afterwards. -/
theorem learn_spec (hm : m.Closed i g i.proto.formals) (es : List Expr) :
    m.Within (i.learn g m es) ∧ (i.learn g m es).Closed i g i.proto.formals ∧
      ∀ e ∈ es, ∀ q ∈ e.symbols, (i.learn g m es).Knows q := by
  induction es generalizing m with
  | nil => exact ⟨.refl m, hm, List.forall_mem_nil _⟩
  | cons e rest ih =>
    obtain ⟨hwithin, hclosed, hknows, -⟩ := outside_learns hm e
    obtain ⟨hrest, hlast, hall⟩ := ih hclosed
    exact ⟨hwithin.trans hrest, hlast,
      List.forall_mem_cons.2 ⟨fun q hq => hrest.knows (hknows q hq), hall⟩⟩

/-- When expressions have been translated the memory is closed, with no default being resolved. -/
theorem closed_learn (i : Instance) (g : Globals) (es : List Expr) :
    (i.learn g .empty es).Closed i g i.proto.formals := (learn_spec Memo.closed_empty es).2.1

/-! ## Copies and definitions -/

/-- Translating parameters one after another leaves the memory of translating their values. -/
theorem foldl_outside_snd (i : Instance) (g : Globals) (entries : List (String × Expr))
    (done : NameMap Expr) (m : Memo) :
    (entries.foldl (fun (state : NameMap Expr × Memo) (entry : String × Expr) =>
        let (value, m) := i.outside g state.2 entry.2
        (state.1.insert entry.1 value, m)) (done, m)).2 = i.learn g m (entries.map Prod.snd) := by
  induction entries generalizing done m with
  | nil => rfl
  | cons entry rest ih => exact ih _ (i.outside g m entry.2).2

/-- Translating parameters leaves the memory of translating their values. -/
theorem outsideAll_snd (i : Instance) (g : Globals) (m : Memo) (params : NameMap Expr) :
    (i.outsideAll g m params).2 = i.learn g m params.values := by
  rw [NameMap.values_eq_map_toList]
  exact i.foldl_outside_snd g params.toList ∅ m

/-- Translated parameters are what they have been translated to by some later memory. -/
theorem foldl_outside_subst {later : Memo} (entries : List (String × Expr)) (done : NameMap Expr)
    (hm : m.Closed i g i.proto.formals)
    (hlater : (i.learn g m (entries.map Prod.snd)).Within later) {name : String} {outer : Expr}
    (h : (entries.foldl (fun (state : NameMap Expr × Memo) (entry : String × Expr) =>
      let (value, m) := i.outside g state.2 entry.2
      (state.1.insert entry.1 value, m)) (done, m)).1[name]? = some outer) :
    done[name]? = some outer ∨ ∃ e, (name, e) ∈ entries ∧ outer = e.subst later.resolved := by
  induction entries generalizing done m with
  | nil => exact .inl h
  | cons entry rest ih =>
    obtain ⟨-, hclosed, -, hvalue⟩ := outside_learns hm entry.2
    have hnext := (learn_spec hclosed (rest.map Prod.snd)).1.trans hlater
    rcases ih _ hclosed hlater h with hdone | ⟨e, he, heq⟩
    · rcases NameMap.getElem?_of_insert hdone with ⟨rfl, rfl⟩ | hold
      · exact .inr ⟨entry.2, List.mem_cons_self, hvalue later hnext⟩
      · exact .inl hold
    · exact .inr ⟨e, List.mem_cons_of_mem entry he, heq⟩

/-- The parameters that are translated are those of before, substituted by any later memory. -/
theorem getElem?_outsideAll {later : Memo} (hm : m.Closed i g i.proto.formals)
    {params : NameMap Expr} (hlater : (i.learn g m params.values).Within later) (name : String) :
    (i.outsideAll g m params).1[name]? =
      (params[name]?).map fun e => e.subst later.resolved := by
  rw [NameMap.values_eq_map_toList] at hlater
  cases houter : (i.outsideAll g m params).1[name]? with
  | none =>
    have hnot : name ∉ (i.outsideAll g m params).1 := by
      rw [Std.ExtTreeMap.mem_iff_isSome_getElem?, houter]
      simp
    rw [mem_outsideAll, Std.ExtTreeMap.mem_iff_isSome_getElem?, Option.not_isSome_iff_eq_none]
      at hnot
    rw [hnot]
    rfl
  | some outer =>
    rcases foldl_outside_subst params.toList ∅ hm hlater houter with hnone | ⟨e, he, rfl⟩
    · exact absurd hnone (by simp)
    · rw [Std.ExtTreeMap.mem_toList_iff_getElem?_eq_some.1 he]
      rfl

/-- The parameters of copies are those of the elements, substituted by any later memory. -/
theorem getElem?_copyAll {later : Memo} (hm : m.Closed i g i.proto.formals) (es : List Element)
    (hlater : (i.learn g m (es.flatMap fun e => e.params.values)).Within later) :
    ∀ c ∈ (i.copyAll g m es).1, ∀ name : String,
      c.2.params[name]? = (c.1.params[name]?).map fun e => e.subst later.resolved := by
  induction es generalizing m with
  | nil => exact fun c hc => absurd hc List.not_mem_nil
  | cons e rest ih =>
    rw [List.flatMap_cons, learn_append] at hlater
    obtain ⟨-, hclosed, -⟩ := learn_spec hm e.params.values
    have hnext := (learn_spec hclosed (rest.flatMap fun e => e.params.values)).1.trans hlater
    rw [← i.outsideAll_snd g m e.params] at hclosed hlater
    exact List.forall_mem_cons.2
      ⟨getElem?_outsideAll hm hnext, ih (m := (i.copy g m e).2) hclosed hlater⟩

/-- Every copy has the parameters of its element, with the known values put in. -/
theorem getElem?_params_of_mem_copies {c : Element × Element} (hc : c ∈ i.copies g)
    (name : String) :
    c.2.params[name]? = (c.1.params[name]?).map fun e => e.subst (i.known g).resolved := by
  refine getElem?_copyAll Memo.closed_empty i.proto.elements.values ?_ c hc name
  rw [known, translated, learn_append]
  exact (learn_spec (i.closed_learn g _) _).1

/-- What an expression needs is known when it has been translated. -/
theorem knows_of_needs {e : Expr} (he : e ∈ i.translated) {q : String} (hq : i.Needs e q) :
    (i.known g).Knows q := by
  induction hq with
  | direct hq => exact (learn_spec Memo.closed_empty i.translated).2.2 e he _ hq
  | @default f q _ huses ih =>
    have hformal : i.proto.formals.contains f = true := by
      obtain ⟨-, -, d, hd, -⟩ := huses
      exact NameMap.contains_iff.2 ⟨d, hd⟩
    exact (i.closed_learn g i.translated).defaults f q ih hformal huses

/-- The known value of a symbol is what it means. -/
theorem valid_learn (hm : m.Valid i g) (es : List Expr) : (i.learn g m es).Valid i g := by
  induction es generalizing m with
  | nil => exact hm
  | cons e rest ih => exact ih (outside_spec hm e).2

/-- What is known in the end is valid: every symbol has the value that it is resolved to. -/
theorem valid_known (i : Instance) (g : Globals) : (i.known g).Valid i g :=
  valid_learn Memo.valid_empty i.translated

end Instance

end FlatNet
