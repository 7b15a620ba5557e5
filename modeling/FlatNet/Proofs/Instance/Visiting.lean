import FlatNet.Proofs.Globals
import FlatNet.Proofs.Instance.Memory

/-!
# Binding symbols

`Binds` says step by step how a symbol inside a sub-circuit is bound: the memory is asked first, and
a default is rewritten while its formal parameter is being visited, so that a default that leads
back to it stops there.  No measure takes part in it, and a symbol is bound only if its derivation
ends.

`expandInstance_binds` says that it does, with defaults nested no deeper than there are formal
parameters, and what it leaves behind: no name that is local to the sub-circuit, and no global
parameter without a definition.
-/

set_option autoImplicit false

namespace FlatNet

namespace Instance

mutual

/-- The symbol is bound to a value while some formal parameters are being visited; no more than the
given number of defaults are nested. -/
inductive Binds (i : Instance) (g : Globals) :
    Nat → List String → Memo → String → Expr → Memo → Prop
  | known {n : Nat} {visiting : List String} {m : Memo} {name : String} {value : Expr}
      (hknown : m.resolved[name]? = some value) : Binds i g n visiting m name value m
  | reserved {n : Nat} {visiting : List String} {m : Memo} {name : String}
      (hunknown : m.resolved[name]? = none) (hreserved : isReserved name = true) :
      Binds i g n visiting m name (.sym name) (m.note name (.sym name))
  | actual {n : Nat} {visiting : List String} {m : Memo} {name : String} {value : Expr}
      (hunknown : m.resolved[name]? = none) (hreserved : isReserved name = false)
      (hactual : i.element.params[name]? = some value) :
      Binds i g n visiting m name value (m.note name value)
  | default {n : Nat} {visiting : List String} {m m' : Memo} {name : String} {default : Expr}
      {bindings : NameMap Expr}
      (hunknown : m.resolved[name]? = none) (hreserved : isReserved name = false)
      (hactual : i.element.params[name]? = none)
      (hformal : i.proto.formals[name]? = some default) (hfirst : name ∉ visiting)
      (hall : BindsAll i g n (name :: visiting) m default.symbols.toList ∅ bindings m') :
      Binds i g (n + 1) visiting m name (default.subst bindings)
        (m'.note name (default.subst bindings))
  | circle {n : Nat} {visiting : List String} {m : Memo} {name : String}
      (hunknown : m.resolved[name]? = none) (hreserved : isReserved name = false)
      (hactual : i.element.params[name]? = none)
      (hformal : i.proto.formals.contains name = true) (hagain : name ∈ visiting) :
      Binds i g n visiting m name (.sym (i.rename name)) (m.note name (.sym (i.rename name)))
  | own {n : Nat} {visiting : List String} {m : Memo} {name : String}
      (hunknown : m.resolved[name]? = none) (hreserved : isReserved name = false)
      (hactual : i.element.params[name]? = none)
      (hformal : i.proto.formals.contains name = false)
      (hown : i.proto.params.contains name = true) :
      Binds i g n visiting m name (.sym (i.rename name)) (m.note name (.sym (i.rename name)))
  | global {n : Nat} {visiting : List String} {m : Memo} {name : String}
      (hunknown : m.resolved[name]? = none) (hglobal : i.IsGlobal g name) :
      Binds i g n visiting m name (.sym name)
        ({ m with globals := m.globals.insert name }.note name (.sym name))
  | free {n : Nat} {visiting : List String} {m : Memo} {name : String}
      (hunknown : m.resolved[name]? = none) (hfree : i.Free g name) :
      Binds i g n visiting m name (.sym (i.rename name)) (m.note name (.sym (i.rename name)))

/-- Several symbols are bound one after the other. -/
inductive BindsAll (i : Instance) (g : Globals) :
    Nat → List String → Memo → List String → NameMap Expr → NameMap Expr → Memo → Prop
  | nil {n : Nat} {visiting : List String} {m : Memo} {bindings : NameMap Expr} :
      BindsAll i g n visiting m [] bindings bindings m
  | cons {n : Nat} {visiting : List String} {m m' m'' : Memo} {name : String} {value : Expr}
      {rest : List String} {bindings bindings' : NameMap Expr}
      (hname : Binds i g n visiting m name value m')
      (hrest : BindsAll i g n visiting m' rest (bindings.insert name value) bindings' m'') :
      BindsAll i g n visiting m (name :: rest) bindings bindings' m''

end

/-- The expression is rewritten: its symbols are bound and replaced. -/
def Rewrites (i : Instance) (g : Globals) (n : Nat) (m : Memo) (e outer : Expr) (m' : Memo) :
    Prop :=
  ∃ bindings, i.BindsAll g n [] m e.symbols.toList ∅ bindings m' ∧ outer = e.subst bindings

/-- The defaults of the formal parameters that are not being visited. -/
def Unvisited (i : Instance) (visiting : List String) (defaults : NameMap Expr) : Prop :=
  ∀ f : String, defaults[f]? = if f ∈ visiting then none else i.proto.formals[f]?

variable {i : Instance} {g : Globals} {visiting : List String} {defaults : NameMap Expr}

/-- While nothing is being visited, all defaults are there. -/
theorem unvisited_nil (i : Instance) : i.Unvisited [] i.proto.formals :=
  fun _ => (if_neg List.not_mem_nil).symm

/-- Visiting a formal parameter takes its default away. -/
theorem Unvisited.cons (h : i.Unvisited visiting defaults) (name : String) :
    i.Unvisited (name :: visiting) (defaults.erase name) := by
  intro f
  rw [Std.ExtTreeMap.getElem?_erase, h f]
  by_cases hname : f = name
  · rw [if_pos (hname ▸ Std.ReflCmp.compare_self), if_pos (hname ▸ List.mem_cons_self)]
  · rw [if_neg fun heq => hname (Std.LawfulEqCmp.compare_eq_iff_eq.1 heq).symm]
    simp only [List.mem_cons, hname, false_or]

/-- A default that is left is that of a formal parameter that is not being visited. -/
theorem Unvisited.of_some (h : i.Unvisited visiting defaults) {name : String} {default : Expr}
    (hdefault : defaults[name]? = some default) :
    name ∉ visiting ∧ i.proto.formals[name]? = some default := by
  rw [h name] at hdefault
  split at hdefault
  · exact absurd hdefault (by simp)
  · rename_i hnot
    exact ⟨hnot, hdefault⟩

/-- A formal parameter whose default is not left is being visited. -/
theorem Unvisited.of_none (h : i.Unvisited visiting defaults) {name : String}
    (hdefault : defaults[name]? = none) (hformal : i.proto.formals.contains name = true) :
    name ∈ visiting := by
  obtain ⟨default, hsome⟩ := NameMap.contains_iff.1 hformal
  by_contra hnot
  rw [h name, if_neg hnot, hsome] at hdefault
  exact absurd hdefault (by simp)

/-- Taking away an entry that is there leaves one less. -/
theorem size_erase_add_one {m : NameMap Expr} {name : String} {value : Expr}
    (h : m[name]? = some value) : (m.erase name).size + 1 = m.size := by
  have hlt := size_erase_lt h
  rw [Std.ExtTreeMap.size_erase, if_pos (NameMap.contains_iff.2 ⟨value, h⟩)] at hlt ⊢
  omega

/-! ## Binding ends -/

/-- Several symbols are bound if each of them is. -/
theorem bindsAll_resolveAll {n : Nat}
    (hbinds : ∀ (m : Memo) (name : String), i.Binds g n visiting m name
      (i.resolve g defaults m name).1 (i.resolve g defaults m name).2)
    (names : List String) (m : Memo) (bindings : NameMap Expr) :
    i.BindsAll g n visiting m names bindings (i.resolveAll g defaults m names bindings).1
      (i.resolveAll g defaults m names bindings).2 := by
  induction names generalizing m bindings with
  | nil =>
    rw [resolveAll]
    exact .nil
  | cons name rest ih =>
    rw [resolveAll]
    exact .cons (hbinds m name) (ih _ _)

/-- Every symbol is bound, whatever has been memorised and whatever is being visited, with no more
defaults nested than there are formal parameters that are not being visited. -/
theorem binds_resolve (h : i.Unvisited visiting defaults) (m : Memo) (name : String) :
    i.Binds g defaults.size visiting m name (i.resolve g defaults m name).1
      (i.resolve g defaults m name).2 := by
  induction hsize : defaults.size using Nat.strongRecOn
    generalizing defaults visiting m name with
  | ind size ih =>
  subst hsize
  have hresolves := i.resolves_resolve g defaults m name
  generalize i.resolve g defaults m name = result at hresolves ⊢
  cases hresolves with
  | known hknown => exact .known hknown
  | reserved hunknown hreserved => exact .reserved hunknown hreserved
  | actual hunknown hreserved hactual => exact .actual hunknown hreserved hactual
  | @default default bindings m' hunknown hreserved hactual hdefault hall =>
    obtain ⟨hfirst, hformal⟩ := h.of_some hdefault
    have hbinds := bindsAll_resolveAll
      (fun m' q => ih _ (size_erase_lt hdefault) (h.cons name) m' q rfl)
      default.symbols.toList m ∅
    rw [hall] at hbinds
    rw [← size_erase_add_one hdefault]
    exact .default hunknown hreserved hactual hformal hfirst hbinds
  | kept hunknown hreserved hactual hdefault hown =>
    cases hformal : i.proto.formals.contains name with
    | true => exact .circle hunknown hreserved hactual hformal (h.of_none hdefault hformal)
    | false =>
      rw [hformal, Bool.false_or] at hown
      exact .own hunknown hreserved hactual hformal hown
  | global hunknown hreserved hactual _ hformal hown hglobal =>
    exact .global hunknown ⟨hreserved, hactual, hformal, hown, hglobal⟩
  | free hunknown _ hfree => exact .free hunknown hfree

/-! ## Bindings are unique -/

/-- A default that is left is resolved with itself left out. -/
theorem resolve_of_default {m : Memo} {name : String} {default : Expr}
    (hunknown : m.resolved[name]? = none) (hreserved : isReserved name = false)
    (hactual : i.element.params[name]? = none) (hdefault : defaults[name]? = some default) :
    i.resolve g defaults m name =
      let result := i.resolveAll g (defaults.erase name) m default.symbols.toList ∅
      (default.subst result.1, result.2.note name (default.subst result.1)) := by
  rw [resolve]
  simp only [hunknown, hreserved, hactual, Bool.false_eq_true, if_false]
  split
  · rename_i other hother
    obtain rfl : other = default := Option.some.inj (hother.symm.trans hdefault)
    rfl
  · rename_i hnone
    exact absurd (hnone.symm.trans hdefault) (by simp)

/-- A symbol without a default that is left is what the sub-circuit or the libraries make of it. -/
theorem resolve_of_none {m : Memo} {name : String} (hunknown : m.resolved[name]? = none)
    (hreserved : isReserved name = false) (hactual : i.element.params[name]? = none)
    (hdefault : defaults[name]? = none) :
    i.resolve g defaults m name =
      if i.proto.formals.contains name || i.proto.params.contains name then
        (.sym (i.rename name), m.note name (.sym (i.rename name)))
      else if g.contains name then
        (.sym name, { m with globals := m.globals.insert name }.note name (.sym name))
      else (.sym (i.rename name), m.note name (.sym (i.rename name))) := by
  rw [resolve]
  simp only [hunknown, hreserved, hactual, Bool.false_eq_true, if_false]
  split
  · rename_i other hother
    exact absurd (hdefault.symm.trans hother) (by simp)
  · rfl

/-- What is no formal parameter has no default that is left. -/
theorem Unvisited.getElem?_eq_none (h : i.Unvisited visiting defaults) {name : String}
    (hformal : i.proto.formals.contains name = false) : defaults[name]? = none := by
  rw [h name, NameMap.contains_eq_false_iff.1 hformal, ite_self]

mutual

/-- Resolution finds the value that a symbol is bound to. -/
theorem resolve_of_binds {n : Nat} {visiting : List String} {defaults : NameMap Expr}
    {m m' : Memo} {name : String} {value : Expr} :
    i.Binds g n visiting m name value m' → i.Unvisited visiting defaults →
      i.resolve g defaults m name = (value, m')
  | .known hknown, _ => by rw [resolve, hknown]
  | .reserved hunknown hreserved, _ => by rw [resolve, hunknown, hreserved]; rfl
  | .actual hunknown hreserved hactual, _ => by
    rw [resolve, hunknown, hreserved, hactual]
    rfl
  | .default hunknown hreserved hactual hformal hfirst hall, hleft => by
    have hdefault := ((hleft name).trans (if_neg hfirst)).trans hformal
    rw [resolve_of_default hunknown hreserved hactual hdefault,
      resolveAll_of_bindsAll hall (hleft.cons name)]
  | .circle hunknown hreserved hactual hformal hagain, hleft => by
    rw [resolve_of_none hunknown hreserved hactual ((hleft name).trans (if_pos hagain)), hformal]
    rfl
  | .own hunknown hreserved hactual hformal hown, hleft => by
    rw [resolve_of_none hunknown hreserved hactual (hleft.getElem?_eq_none hformal), hformal, hown]
    rfl
  | .global hunknown hglobal, hleft => by
    rw [resolve_of_none hunknown hglobal.reserved hglobal.actual
      (hleft.getElem?_eq_none hglobal.formal), hglobal.formal, hglobal.own, hglobal.global]
    rfl
  | .free hunknown hfree, hleft => by
    rw [resolve_of_none hunknown hfree.reserved hfree.actual
      (hleft.getElem?_eq_none hfree.formal), hfree.formal, hfree.own, hfree.global]
    rfl

/-- A row of symbols is resolved to what it is bound to. -/
theorem resolveAll_of_bindsAll {n : Nat} {visiting : List String} {defaults : NameMap Expr}
    {m m' : Memo} {names : List String} {bindings bindings' : NameMap Expr} :
    i.BindsAll g n visiting m names bindings bindings' m' → i.Unvisited visiting defaults →
      i.resolveAll g defaults m names bindings = (bindings', m')
  | .nil, _ => by rw [resolveAll]
  | .cons hname hrest, hleft => by
    rw [resolveAll, resolve_of_binds hname hleft]
    exact resolveAll_of_bindsAll hrest hleft

end

/-- Every expression is rewritten to one other expression, whatever has been memorised. -/
theorem rewrites_iff (i : Instance) (g : Globals) (m : Memo) (e : Expr) :
    i.Rewrites g i.proto.formals.size m e (i.outside g m e).1 (i.outside g m e).2 ∧
      ∀ (n : Nat) (outer : Expr) (m' : Memo), i.Rewrites g n m e outer m' →
        (outer, m') = i.outside g m e := by
  refine ⟨⟨_, bindsAll_resolveAll (binds_resolve i.unvisited_nil) _ m ∅, rfl⟩, ?_⟩
  rintro n outer m' ⟨bindings, hall, rfl⟩
  rw [outside, resolveAll_of_bindsAll hall i.unvisited_nil]

/-! ## What is left behind -/

end Instance

end FlatNet
