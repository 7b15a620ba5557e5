import FlatNet.Proofs.Instance.Visiting

/-!
# Values that do not depend on the order of first uses

The value of a symbol is kept when it is first needed, and it may be needed while the defaults of
other formal parameters are being rewritten.  A formal parameter that is being visited is only its
renamed symbol, and what is kept of a symbol that leads to it stays like that.

`Steady` are the values that symbols have if nothing is being visited: a default is rewritten with
its own symbol renamed and with the steady values of all others.  A symbol has at most one.  As long
as no two formal parameters lead to each other, nothing that is needed below a default leads back to
it, and so all that is kept is steady, in whatever order symbols are bound.
-/

set_option autoImplicit false

namespace FlatNet.Instance

/-- What a symbol stands for if it is no formal parameter whose default is used. -/
def outright? (i : Instance) (g : Globals) (name : String) : Option Expr :=
  if isReserved name then some (.sym name)
  else
    match i.element.params[name]? with
    | some actual => some actual
    | none =>
      if i.proto.formals.contains name then none
      else if i.proto.params.contains name then some (.sym (i.rename name))
      else if g.contains name then some (.sym name)
      else some (.sym (i.rename name))

/-- What a symbol stands for while nothing is being visited. -/
inductive Steady (i : Instance) (g : Globals) : String → Expr → Prop
  | outright {name : String} {value : Expr} (h : i.outright? g name = some value) :
      Steady i g name value
  | default {name : String} {default : Expr} {bindings : NameMap Expr}
      (hnone : i.outright? g name = none) (hformal : i.proto.formals[name]? = some default)
      (hbound : ∀ q ∈ default.symbols, (bindings[q]?).isSome = true)
      (hown : ∀ v, bindings[name]? = some v → v = .sym (i.rename name))
      (hothers : ∀ q v, q ∈ default.symbols → q ≠ name → bindings[q]? = some v → Steady i g q v) :
      Steady i g name (default.subst bindings)

/-- No two formal parameters lead to each other, though one may lead to itself. -/
def Untangled (i : Instance) : Prop := ∀ f f', i.LeadsTo f f' → i.LeadsTo f' f → f = f'

/-- What is kept of formal parameters that are being visited are their renamed symbols, and what is
kept of others are steady values. -/
structure Memo.Steady (m : Memo) (i : Instance) (g : Globals) (visiting : List String) : Prop where
  visited : ∀ q ∈ visiting, ∀ v, m.resolved[q]? = some v → v = .sym (i.rename q)
  settled : ∀ q ∉ visiting, ∀ v, m.resolved[q]? = some v → i.Steady g q v

variable {i : Instance} {g : Globals} {name : String} {value : Expr} {visiting : List String}
  {m : Memo}

/-- A symbol stands for nothing outright exactly if it is a formal parameter whose default is
used. -/
theorem outright?_eq_none_iff :
    i.outright? g name = none ↔ isReserved name = false ∧ i.element.params[name]? = none ∧
      i.proto.formals.contains name = true := by
  unfold outright?
  cases isReserved name <;> cases i.element.params[name]? <;>
    cases i.proto.formals.contains name <;> simp
  split
  · simp
  · split <;> simp

/-- Only a formal parameter that the instance does not set leads anywhere. -/
theorem LeadsTo.formal {q : String} (h : i.LeadsTo name q) : isReserved name = false ∧
    i.element.params[name]? = none ∧ i.proto.formals.contains name = true := by
  obtain ⟨-, ⟨hreserved, hactual, default, hformal, -⟩, -⟩ := Relation.TransGen.head'_iff.1 h
  exact ⟨hreserved, hactual, NameMap.contains_iff.2 ⟨default, hformal⟩⟩

/-- A symbol that leads to another one does so through its default. -/
theorem LeadsTo.outright?_eq_none {q : String} (h : i.LeadsTo name q) :
    i.outright? g name = none := outright?_eq_none_iff.2 h.formal

/-- A symbol has one steady value at most. -/
theorem Steady.unique (h : i.Steady g name value) :
    ∀ {value' : Expr}, i.Steady g name value' → value' = value := by
  induction h with
  | outright h =>
    intro value' h'
    cases h' with
    | outright h' => exact Option.some.inj (h'.symm.trans h)
    | default hnone => simp [hnone] at h
  | @default name default bindings hnone hformal hbound hown _ ih =>
    intro value' h'
    cases h' with
    | outright h' => simp [hnone] at h'
    | @default _ default' bindings' _ hformal' hbound' hown' hothers' =>
      obtain rfl : default' = default := Option.some.inj (hformal'.symm.trans hformal)
      refine Expr.subst_congr default' fun q hq => ?_
      obtain ⟨v, hv⟩ := Option.isSome_iff_exists.1 (hbound q (Expr.mem_symbols.2 hq))
      obtain ⟨v', hv'⟩ := Option.isSome_iff_exists.1 (hbound' q (Expr.mem_symbols.2 hq))
      rw [hv, hv']
      by_cases hname : q = name
      · subst hname
        rw [hown v hv, hown' v' hv']
      · have hmem := Expr.mem_symbols.2 hq
        rw [ih q v hmem hname hv (hothers' q v' hmem hname hv')]

namespace Memo.Steady

/-- The empty memory is steady. -/
theorem empty : Memo.empty.Steady i g visiting := by
  constructor <;> intro q _ v hv <;> simp [Memo.empty] at hv

/-- A steady value may be noted. -/
theorem note (h : m.Steady i g visiting) (hvisited : name ∈ visiting → value = .sym (i.rename name))
    (hsettled : name ∉ visiting → i.Steady g name value) :
    (m.note name value).Steady i g visiting where
  visited := by
    intro q hq v hv
    rcases NameMap.getElem?_of_insert hv with ⟨rfl, rfl⟩ | hold
    · exact hvisited hq
    · exact h.visited q hq v hold
  settled := by
    intro q hq v hv
    rcases NameMap.getElem?_of_insert hv with ⟨rfl, rfl⟩ | hold
    · exact hsettled hq
    · exact h.settled q hq v hold

/-- A visit begins while nothing is kept of the formal parameter. -/
theorem visit (h : m.Steady i g visiting) (hunknown : m.resolved[name]? = none) :
    m.Steady i g (name :: visiting) where
  visited := by
    intro q hq v hv
    rcases List.mem_cons.1 hq with rfl | hq
    · simp [hunknown] at hv
    · exact h.visited q hq v hv
  settled := by
    intro q hq v hv
    exact h.settled q (fun hmem => hq (List.mem_cons_of_mem _ hmem)) v hv

/-- A visit ends when a steady value has been found. -/
theorem leave (h : m.Steady i g (name :: visiting)) (hfirst : name ∉ visiting)
    (hvalue : i.Steady g name value) : (m.note name value).Steady i g visiting where
  visited := by
    intro q hq v hv
    rcases NameMap.getElem?_of_insert hv with ⟨rfl, rfl⟩ | hold
    · exact absurd hq hfirst
    · exact h.visited q (List.mem_cons_of_mem _ hq) v hold
  settled := by
    intro q hq v hv
    by_cases hname : q = name
    · subst hname
      rw [Memo.getElem?_note] at hv
      rwa [← Option.some.inj hv]
    · have hold : m.resolved[q]? = some v :=
        (NameMap.getElem?_insert_of_ne (Ne.symm hname) value).symm.trans hv
      exact h.settled q (by simp [hname, hq]) v hold

end Memo.Steady

/-- What a symbol is bound to: its renamed symbol while it is being visited, and else its steady
value. -/
structure Settles (i : Instance) (g : Globals) (visiting : List String) (name : String)
    (value : Expr) (m : Memo) : Prop where
  visited : name ∈ visiting → value = .sym (i.rename name)
  settled : name ∉ visiting → i.Steady g name value
  memo : m.Steady i g visiting

/-- A value that no default takes part in is steady, and no visit is concerned. -/
theorem settles_outright (hm : m.Steady i g visiting)
    (hvisiting : ∀ f ∈ visiting, i.LeadsTo f name) (h : i.outright? g name = some value) :
    i.Settles g visiting name value (m.note name value) := by
  have hapart : name ∉ visiting := by
    intro hmem
    have hnone := (hvisiting name hmem).outright?_eq_none (g := g)
    simp [hnone] at h
  have hsteady : i.Steady g name value := .outright h
  exact ⟨fun hmem => absurd hmem hapart, fun _ => hsteady,
    hm.note (fun hmem => absurd hmem hapart) fun _ => hsteady⟩

/-- Every symbol of a row is bound at its end. -/
theorem BindsAll.isSome {n : Nat} {visiting : List String} {m m' : Memo} {names : List String}
    {bindings bindings' : NameMap Expr} :
    i.BindsAll g n visiting m names bindings bindings' m' →
      ∀ q : String, q ∈ names ∨ (bindings[q]?).isSome = true → (bindings'[q]?).isSome = true
  | .nil, _, h => h.resolve_left List.not_mem_nil
  | @BindsAll.cons _ _ _ _ _ _ _ name _ _ _ _ _ hrest, q, h => by
    refine hrest.isSome q ?_
    by_cases hname : name = q
    · subst hname
      exact .inr (by simp)
    · rw [NameMap.getElem?_insert_of_ne hname]
      exact h.imp_left fun hmem => (List.mem_cons.1 hmem).resolve_left (Ne.symm hname)

/-- What is bound by a row of symbols settles, if something is bound by it. -/
structure SettlesAll (i : Instance) (g : Globals) (visiting : List String)
    (bindings bindings' : NameMap Expr) (m : Memo) : Prop where
  visited : ∀ q ∈ visiting, ∀ v, bindings'[q]? = some v →
    bindings[q]? = some v ∨ v = .sym (i.rename q)
  settled : ∀ q ∉ visiting, ∀ v, bindings'[q]? = some v →
    bindings[q]? = some v ∨ i.Steady g q v
  memo : m.Steady i g visiting

/-- The default of a formal parameter is rewritten to a steady value when its symbols settle: none
of the others leads back to it or to a formal parameter that is being visited. -/
theorem settles_default (huntangled : i.Untangled) {default : Expr} {bindings : NameMap Expr}
    (hreserved : isReserved name = false) (hactual : i.element.params[name]? = none)
    (hformal : i.proto.formals[name]? = some default) (hfirst : name ∉ visiting)
    (hvisiting : ∀ f ∈ visiting, i.LeadsTo f name)
    (hbound : ∀ q ∈ default.symbols, (bindings[q]?).isSome = true)
    (hall : i.SettlesAll g (name :: visiting) ∅ bindings m) :
    i.Settles g visiting name (default.subst bindings)
      (m.note name (default.subst bindings)) := by
  have hnone : i.outright? g name = none :=
    outright?_eq_none_iff.2 ⟨hreserved, hactual, NameMap.contains_iff.2 ⟨default, hformal⟩⟩
  have hsteady : i.Steady g name (default.subst bindings) := by
    refine .default hnone hformal hbound (fun v hv => ?_) fun q v hq hne hv => ?_
    · exact (hall.visited name List.mem_cons_self v hv).resolve_left (by simp)
    · have huses : i.DefaultUses name q := ⟨hreserved, hactual, default, hformal, hq⟩
      refine (hall.settled q (fun hmem => ?_) v hv).resolve_left (by simp)
      rcases List.mem_cons.1 hmem with heq | hmem
      · exact hne heq
      · exact hne (huntangled q name (hvisiting q hmem) (.single huses))
  exact ⟨fun hmem => absurd hmem hfirst, fun _ => hsteady, hall.memo.leave hfirst hsteady⟩

mutual

/-- As long as no two formal parameters lead to each other, symbols are bound to steady values. -/
theorem Binds.settles (huntangled : i.Untangled) {n : Nat} {visiting : List String} {m m' : Memo}
    {name : String} {value : Expr} : i.Binds g n visiting m name value m' →
      m.Steady i g visiting → (∀ f ∈ visiting, i.LeadsTo f name) →
      i.Settles g visiting name value m'
  | .known hknown, hm, _ =>
    ⟨fun hmem => hm.visited _ hmem _ hknown, fun hmem => hm.settled _ hmem _ hknown, hm⟩
  | .reserved _ hreserved, hm, hvisiting =>
    settles_outright hm hvisiting (by simp [outright?, hreserved])
  | .actual _ hreserved hactual, hm, hvisiting =>
    settles_outright hm hvisiting (by simp [outright?, hreserved, hactual])
  | .own _ hreserved hactual hformal hown, hm, hvisiting =>
    settles_outright hm hvisiting (by simp [outright?, hreserved, hactual, hformal, hown])
  | .global _ h, hm, hvisiting =>
    settles_outright ⟨hm.visited, hm.settled⟩ hvisiting
      (by simp [outright?, h.reserved, h.actual, h.formal, h.own, h.global])
  | .free _ h, hm, hvisiting =>
    settles_outright hm hvisiting
      (by simp [outright?, h.reserved, h.actual, h.formal, h.own, h.global])
  | .circle _ _ _ _ hagain, hm, _ =>
    ⟨fun _ => rfl, fun hmem => absurd hagain hmem,
      hm.note (fun _ => rfl) fun hmem => absurd hagain hmem⟩
  | .default hunknown hreserved hactual hformal hfirst hall, hm, hvisiting => by
    refine settles_default huntangled hreserved hactual hformal hfirst hvisiting
      (fun q hq => hall.isSome q (.inl (Std.ExtTreeSet.mem_toList.2 hq)))
      (hall.settles huntangled (hm.visit hunknown) fun q hq f hf => ?_)
    have huses : i.DefaultUses name q :=
      ⟨hreserved, hactual, _, hformal, Std.ExtTreeSet.mem_toList.1 hq⟩
    rcases List.mem_cons.1 hf with rfl | hf
    · exact .single huses
    · exact (hvisiting f hf).tail huses

/-- What a row of symbols is bound to settles, and the memory stays steady, as long as nothing in
the row leads back to what is being visited. -/
theorem BindsAll.settles (huntangled : i.Untangled) {n : Nat} {visiting : List String}
    {m m' : Memo} {names : List String} {bindings bindings' : NameMap Expr} :
    i.BindsAll g n visiting m names bindings bindings' m' → m.Steady i g visiting →
      (∀ q ∈ names, ∀ f ∈ visiting, i.LeadsTo f q) →
      i.SettlesAll g visiting bindings bindings' m'
  | .nil, hm, _ => ⟨fun _ _ _ hv => .inl hv, fun _ _ _ hv => .inl hv, hm⟩
  | .cons hname hrest, hm, hvisiting => by
    obtain ⟨hfirst, hothers⟩ := List.forall_mem_cons.1 hvisiting
    have hone := hname.settles huntangled hm hfirst
    obtain ⟨hvisited, hsettled, hlast⟩ := hrest.settles huntangled hone.memo hothers
    refine ⟨fun q hq v hv => ?_, fun q hq v hv => ?_, hlast⟩
    · rcases hvisited q hq v hv with hold | hnew
      · rcases NameMap.getElem?_of_insert hold with ⟨rfl, rfl⟩ | hold
        · exact .inr (hone.visited hq)
        · exact .inl hold
      · exact .inr hnew
    · rcases hsettled q hq v hv with hold | hnew
      · rcases NameMap.getElem?_of_insert hold with ⟨rfl, rfl⟩ | hold
        · exact .inr (hone.settled hq)
        · exact .inl hold
      · exact .inr hnew

end

/-! ## One value, whatever has been bound before -/

/-- A symbol is bound to its steady value, and what is kept stays steady. -/
theorem resolve_settles (huntangled : i.Untangled) (hm : m.Steady i g []) (name : String) :
    i.Steady g name (i.resolve g i.proto.formals m name).1 ∧
      (i.resolve g i.proto.formals m name).2.Steady i g [] := by
  have hone := (binds_resolve (g := g) i.unvisited_nil m name).settles huntangled hm
    (List.forall_mem_nil _)
  exact ⟨hone.settled List.not_mem_nil, hone.memo⟩

/-- The symbols of an expression are replaced by their steady values. -/
theorem outside_settles (huntangled : i.Untangled) (hm : m.Steady i g []) (e : Expr) :
    (∃ bindings : NameMap Expr, (i.outside g m e).1 = e.subst bindings ∧
      ∀ q ∈ e.symbols, ∃ v, bindings[q]? = some v ∧ i.Steady g q v) ∧
      (i.outside g m e).2.Steady i g [] := by
  obtain ⟨bindings, hall, hvalue⟩ := (i.rewrites_iff g m e).1
  have hsettles := hall.settles huntangled hm fun _ _ _ hf => absurd hf List.not_mem_nil
  refine ⟨⟨bindings, hvalue, fun q hq => ?_⟩, hsettles.memo⟩
  obtain ⟨v, hv⟩ := Option.isSome_iff_exists.1
    (hall.isSome q (.inl (Std.ExtTreeSet.mem_toList.2 hq)))
  exact ⟨v, hv, (hsettles.settled q List.not_mem_nil v hv).resolve_left (by simp)⟩

section Memories

variable {m' : Memo}

/-- An expression is translated alike by all memories of steady values. -/
theorem outside_eq (huntangled : i.Untangled) (hm : m.Steady i g []) (hm' : m'.Steady i g [])
    (e : Expr) : (i.outside g m e).1 = (i.outside g m' e).1 := by
  obtain ⟨⟨bindings, hvalue, hbound⟩, -⟩ := outside_settles huntangled hm e
  obtain ⟨⟨bindings', hvalue', hbound'⟩, -⟩ := outside_settles huntangled hm' e
  rw [hvalue, hvalue']
  refine Expr.subst_congr e fun q hq => ?_
  obtain ⟨v, hv, hsteady⟩ := hbound q (Expr.mem_symbols.2 hq)
  obtain ⟨v', hv', hsteady'⟩ := hbound' q (Expr.mem_symbols.2 hq)
  rw [hv, hv', hsteady.unique hsteady']

/-- Parameters are translated the same from all steady memories. -/
theorem foldl_outside_eq (huntangled : i.Untangled) (hm : m.Steady i g [])
    (hm' : m'.Steady i g []) (entries : List (String × Expr)) (done : NameMap Expr) :
    let translate := fun (state : NameMap Expr × Memo) (entry : String × Expr) =>
      let (value, m) := i.outside g state.2 entry.2
      (state.1.insert entry.1 value, m)
    (entries.foldl translate (done, m)).1 = (entries.foldl translate (done, m')).1 ∧
      (entries.foldl translate (done, m)).2.Steady i g [] := by
  induction entries generalizing done m m' with
  | nil => exact ⟨rfl, hm⟩
  | cons entry rest ih =>
    have hvalue := outside_eq huntangled hm hm' entry.2
    have hnext := (outside_settles huntangled hm entry.2).2
    have hnext' := (outside_settles huntangled hm' entry.2).2
    simp only [List.foldl_cons]
    rw [hvalue]
    exact ih hnext hnext' _

/-- An element is copied alike by all memories of steady values. -/
theorem copy_eq (huntangled : i.Untangled) (hm : m.Steady i g []) (hm' : m'.Steady i g [])
    (e : Element) :
    (i.copy g m e).1 = (i.copy g m' e).1 ∧ (i.copy g m e).2.Steady i g [] := by
  obtain ⟨hparams, hnext⟩ := foldl_outside_eq huntangled hm hm' e.params.toList ∅
  refine ⟨?_, hnext⟩
  have hall : (i.outsideAll g m e.params).1 = (i.outsideAll g m' e.params).1 := hparams
  show { e with
    refDes := _, refs := _, nodes := _, params := (i.outsideAll g m e.params).1 } = _
  rw [hall]
  rfl

end Memories

/-- Every element is copied as if nothing had been bound before. -/
theorem copyAll_eq (huntangled : i.Untangled) (hm : m.Steady i g []) (es : List Element) :
    (i.copyAll g m es).1 = es.map fun e => (e, (i.copy g .empty e).1) := by
  induction es generalizing m with
  | nil => rfl
  | cons e rest ih =>
    obtain ⟨hcopy, hnext⟩ := copy_eq huntangled hm .empty e
    show (e, (i.copy g m e).1) :: (i.copyAll g (i.copy g m e).2 rest).1 = _
    rw [hcopy, ih hnext, List.map_cons]

/-! ## An element by itself -/

/-- The instance with an element as the only one of its sub-circuit. -/
def only (i : Instance) (e : Element) : Instance :=
  { i with proto := { i.proto with elements := (∅ : NameMap Element).insert e.refDes e } }

mutual

/-- No other element takes part in binding a symbol. -/
theorem Binds.only (e : Element) {n : Nat} {visiting : List String} {m m' : Memo} {name : String}
    {value : Expr} : i.Binds g n visiting m name value m' →
      (i.only e).Binds g n visiting m name value m'
  | .known hknown => .known hknown
  | .reserved hunknown hreserved => .reserved hunknown hreserved
  | .actual hunknown hreserved hactual => .actual hunknown hreserved hactual
  | .default hunknown hreserved hactual hformal hfirst hall =>
    .default hunknown hreserved hactual hformal hfirst (hall.only e)
  | .circle hunknown hreserved hactual hformal hagain =>
    .circle hunknown hreserved hactual hformal hagain
  | .own hunknown hreserved hactual hformal hown => .own hunknown hreserved hactual hformal hown
  | .global hunknown h => .global hunknown ⟨h.reserved, h.actual, h.formal, h.own, h.global⟩
  | .free hunknown h => .free hunknown ⟨h.reserved, h.actual, h.formal, h.own, h.global⟩

/-- Symbols are bound the same when an element is the only one of its sub-circuit. -/
theorem BindsAll.only (e : Element) {n : Nat} {visiting : List String} {m m' : Memo}
    {names : List String} {bindings bindings' : NameMap Expr} :
    i.BindsAll g n visiting m names bindings bindings' m' →
      (i.only e).BindsAll g n visiting m names bindings bindings' m'
  | .nil => .nil
  | .cons hname hrest => .cons (hname.only e) (hrest.only e)

end

/-- An expression is translated the same when an element is the only one of its sub-circuit. -/
theorem outside_only (i : Instance) (g : Globals) (m : Memo) (e : Element) (inner : Expr) :
    (i.only e).outside g m inner = i.outside g m inner := by
  obtain ⟨bindings, hall, hvalue⟩ := (i.rewrites_iff g m inner).1
  exact (((i.only e).rewrites_iff g m inner).2 _ _ _ ⟨bindings, hall.only e, hvalue⟩).symm

/-- An element is copied the same when it is the only one of its sub-circuit. -/
theorem copy_only (i : Instance) (g : Globals) (m : Memo) (e : Element) :
    (i.only e).copy g m e = i.copy g m e := by
  have hall : (i.only e).outsideAll g m e.params = i.outsideAll g m e.params := by
    unfold outsideAll
    simp only [outside_only]
  unfold copy
  rw [hall]
  rfl

/-- The only element of a sub-circuit is copied from the empty memory. -/
theorem copies_only (i : Instance) (g : Globals) (e : Element) :
    (i.only e).copies g = [(e, (i.copy g .empty e).1)] := by
  have hvalues : (i.only e).proto.elements.values = [e] := by
    have hnone : (∅ : NameMap Element)[e.refDes]? = none := by simp
    exact List.perm_singleton.1 (NameMap.values_insert_perm hnone e)
  unfold copies
  rw [hvalues, ← copy_only]
  rfl

/-! ## Order -/

/-- The memory when several symbols have been bound, one after the other. -/
def row (i : Instance) (g : Globals) (names : List String) : Memo :=
  (i.resolveAll g i.proto.formals .empty names ∅).2

/-- The value that a symbol is bound to when others have been bound before. -/
def boundAfter (i : Instance) (g : Globals) (before : List String) (name : String) : Expr :=
  (i.resolve g i.proto.formals (i.row g before) name).1

/-- It makes no difference in which order symbols are bound: a symbol gets the value that it gets as
the first one, and an element is copied as if it were the only one of its sub-circuit. -/
structure IgnoresOrder (i : Instance) (g : Globals) : Prop where
  symbols : ∀ before name, i.boundAfter g before name = i.boundAfter g [] name
  copies : ∀ c ∈ i.copies g, (i.only c.1).copies g = [c]

/-- Where no two formal parameters lead to each other the order of first uses makes no
difference. -/
theorem Untangled.ignoresOrder (h : i.Untangled) (g : Globals) : i.IgnoresOrder g := by
  have hrow : ∀ names, (i.row g names).Steady i g [] := by
    intro names
    have hall := bindsAll_resolveAll (binds_resolve (g := g) i.unvisited_nil) names .empty ∅
    exact (hall.settles h .empty fun _ _ _ hf => absurd hf List.not_mem_nil).memo
  refine ⟨fun before name => ?_, fun c hc => ?_⟩
  · have hafter := (resolve_settles h (hrow before) name).1
    exact ((resolve_settles h (hrow []) name).1.unique hafter)
  · unfold copies at hc
    rw [copyAll_eq h .empty] at hc
    obtain ⟨e, -, rfl⟩ := List.mem_map.1 hc
    exact i.copies_only g e

end FlatNet.Instance
