import FlatNet.Proofs.Expr.Substitution
import FlatNet.Proofs.Instance.Copies
import Mathlib.Logic.Relation

/-!
# What symbols mean inside an instance

`Means` says what a symbol inside a sub-circuit stands for in an instance, without any memory of
what has been resolved before and without any order: a reserved symbol stands for itself, then come
the parameters that the instance sets, the defaults of formal parameters, the parameters defined in
the sub-circuit, global parameters, and free symbols.  A default that leads back to its own
parameter may be left as the renamed parameter.  `resolve_spec` says that resolution finds what is
meant, whatever has been memorised.
-/

set_option autoImplicit false

namespace FlatNet

namespace Instance

/-- There is an underscore in every name that an instance gives. -/
theorem underscore_mem_rename (i : Instance) (name : String) :
    '_' ∈ (i.rename name).toList := by
  unfold rename
  simp

/-- A reserved symbol has no underscore, unlike every renamed one. -/
theorem isReserved_rename (i : Instance) (name : String) :
    isReserved (i.rename name) = false := by
  refine Bool.eq_false_iff.2 fun h => ?_
  have hlist : i.rename name ∈ reservedSymbols := List.contains_iff_mem.1 h
  have hnone : ∀ symbol ∈ reservedSymbols, '_' ∉ symbol.toList := by decide
  exact hnone _ hlist (i.underscore_mem_rename name)

/-- A formal parameter that the instance does not set, and a symbol of its default. -/
def DefaultUses (i : Instance) (formal symbol : String) : Prop :=
  isReserved formal = false ∧ i.element.params[formal]? = none ∧
    ∃ default, i.proto.formals[formal]? = some default ∧ symbol ∈ default.symbols

/-- The default of a formal parameter leads to a symbol, directly or through other defaults. -/
def LeadsTo (i : Instance) : String → String → Prop := Relation.TransGen i.DefaultUses

/-- What a symbol inside the sub-circuit stands for in the instance. -/
inductive Means (i : Instance) (g : Globals) : String → Expr → Prop
  | reserved {name : String} (hreserved : isReserved name = true) : Means i g name (.sym name)
  | actual {name : String} {value : Expr} (hreserved : isReserved name = false)
      (hactual : i.element.params[name]? = some value) : Means i g name value
  | default {name : String} {value : Expr} {bindings : NameMap Expr}
      (hreserved : isReserved name = false) (hactual : i.element.params[name]? = none)
      (hformal : i.proto.formals[name]? = some value)
      (hbound : ∀ q ∈ value.symbols, (bindings[q]?).isSome = true)
      (hmeans : ∀ q v, bindings[q]? = some v → Means i g q v) :
      Means i g name (value.subst bindings)
  | circle {name : String} (hreserved : isReserved name = false)
      (hactual : i.element.params[name]? = none)
      (hformal : i.proto.formals.contains name = true) (hback : i.LeadsTo name name) :
      Means i g name (.sym (i.rename name))
  | own {name : String} (hreserved : isReserved name = false)
      (hactual : i.element.params[name]? = none) (hformal : i.proto.formals.contains name = false)
      (hown : i.proto.params.contains name = true) : Means i g name (.sym (i.rename name))
  | global {name : String} (hreserved : isReserved name = false)
      (hactual : i.element.params[name]? = none) (hformal : i.proto.formals.contains name = false)
      (hown : i.proto.params.contains name = false) (hglobal : g.contains name = true) :
      Means i g name (.sym name)
  | free {name : String} (hreserved : isReserved name = false)
      (hactual : i.element.params[name]? = none) (hformal : i.proto.formals.contains name = false)
      (hown : i.proto.params.contains name = false) (hglobal : g.contains name = false) :
      Means i g name (.sym (i.rename name))

/-- What an expression inside the sub-circuit stands for in the instance: the expression with all
its symbols replaced by what they stand for. -/
def MeansExpr (i : Instance) (g : Globals) (e outer : Expr) : Prop :=
  ∃ bindings : NameMap Expr, (∀ q ∈ e.symbols, (bindings[q]?).isSome = true) ∧
    (∀ q v, bindings[q]? = some v → i.Means g q v) ∧ outer = e.subst bindings

/-- A symbol without any meaning of its own: not reserved, no parameter that the instance sets, no
formal parameter, not defined inside the sub-circuit, and no global parameter. -/
structure Free (i : Instance) (g : Globals) (name : String) : Prop where
  reserved : isReserved name = false
  actual : i.element.params[name]? = none
  formal : i.proto.formals.contains name = false
  own : i.proto.params.contains name = false
  global : g.contains name = false

instance (i : Instance) (g : Globals) (name : String) : Decidable (i.Free g name) :=
  decidable_of_iff (isReserved name = false ∧ i.element.params[name]? = none ∧
    i.proto.formals.contains name = false ∧ i.proto.params.contains name = false ∧
      g.contains name = false)
    ⟨fun ⟨hreserved, hactual, hformal, hown, hglobal⟩ =>
        ⟨hreserved, hactual, hformal, hown, hglobal⟩,
      fun h => ⟨h.reserved, h.actual, h.formal, h.own, h.global⟩⟩

variable {i : Instance} {g : Globals}

/-- An expression that is a symbol stands for what the symbol stands for. -/
theorem meansExpr_sym_iff {name : String} {v : Expr} :
    i.MeansExpr g (.sym name) v ↔ i.Means g name v := by
  constructor
  · rintro ⟨bindings, hbound, hmeans, rfl⟩
    have hname : name ∈ (Expr.sym name).symbols :=
      Expr.mem_symbols.2 (List.mem_singleton_self name)
    obtain ⟨u, hu⟩ := Option.isSome_iff_exists.1 (hbound name hname)
    rw [Expr.subst, hu]
    exact hmeans name u hu
  · intro h
    refine ⟨(∅ : NameMap Expr).insert name v, fun q hq => ?_, fun q u hu => ?_, ?_⟩
    · obtain rfl := List.mem_singleton.1 (Expr.mem_symbols.1 hq)
      simp
    · rcases NameMap.getElem?_of_insert hu with ⟨rfl, rfl⟩ | hold
      · exact h
      · exact absurd hold (by simp)
    · simp [Expr.subst]

/-- A parameter that the instance sets stands for what it is set to. -/
theorem Means.eq_of_actual {name : String} {v : Expr} (h : i.Means g name v)
    (hreserved : isReserved name = false) {value : Expr}
    (hactual : i.element.params[name]? = some value) : v = value := by
  cases h with
  | reserved hreserved' => exact absurd hreserved' (by simp [hreserved])
  | actual _ hactual' => exact Option.some.inj (hactual'.symm.trans hactual)
  | default _ hnone | circle _ hnone | own _ hnone | global _ hnone | free _ hnone =>
    exact absurd (hnone.symm.trans hactual) (by simp)

/-- A free symbol stands for its renamed self. -/
theorem Free.means_iff {name : String} (h : i.Free g name) {v : Expr} :
    i.Means g name v ↔ v = .sym (i.rename name) := by
  constructor
  · intro hmeans
    cases hmeans with
    | reserved hreserved => exact absurd hreserved (by simp [h.reserved])
    | actual _ hactual => exact absurd hactual (by simp [h.actual])
    | default _ _ hformal _ _ =>
      rw [NameMap.contains_eq_false_iff.1 h.formal] at hformal
      exact absurd hformal (by simp)
    | global _ _ _ _ hglobal => exact absurd hglobal (by simp [h.global])
    | circle => rfl
    | own => rfl
    | free => rfl
  · rintro rfl
    exact .free h.reserved h.actual h.formal h.own h.global

/-- A free symbol of an expression appears renamed in what the expression stands for. -/
theorem MeansExpr.mem_symbols_of_free {e outer : Expr} (h : i.MeansExpr g e outer) {name : String}
    (hfree : i.Free g name) (hname : name ∈ e.symbols) : i.rename name ∈ outer.symbols := by
  obtain ⟨bindings, hbound, hmeans, rfl⟩ := h
  obtain ⟨v, hv⟩ := Option.isSome_iff_exists.1 (hbound name hname)
  have hsym := hfree.means_iff.1 (hmeans name v hv)
  rw [Expr.mem_symbols, Expr.mem_occurrences_subst]
  refine ⟨name, Expr.mem_symbols.1 hname, ?_⟩
  rw [hv, hsym]
  exact List.mem_singleton_self _

/-! ## Resolution -/

/-- The ways in which a symbol is resolved: from the memory, or as the first thing that it can stand
for.  A formal parameter whose default is not left is kept like one that the sub-circuit defines. -/
inductive Resolves (i : Instance) (g : Globals) (defaults : NameMap Expr) (m : Memo)
    (name : String) : Expr × Memo → Prop
  | known {value : Expr} (hknown : m.resolved[name]? = some value) :
      Resolves i g defaults m name (value, m)
  | reserved (hunknown : m.resolved[name]? = none) (hreserved : isReserved name = true) :
      Resolves i g defaults m name (.sym name, m.note name (.sym name))
  | actual {value : Expr} (hunknown : m.resolved[name]? = none)
      (hreserved : isReserved name = false) (hactual : i.element.params[name]? = some value) :
      Resolves i g defaults m name (value, m.note name value)
  | default {default : Expr} {bindings : NameMap Expr} {m' : Memo}
      (hunknown : m.resolved[name]? = none) (hreserved : isReserved name = false)
      (hactual : i.element.params[name]? = none) (hdefault : defaults[name]? = some default)
      (hall : i.resolveAll g (defaults.erase name) m default.symbols.toList ∅ = (bindings, m')) :
      Resolves i g defaults m name (default.subst bindings, m'.note name (default.subst bindings))
  | kept (hunknown : m.resolved[name]? = none) (hreserved : isReserved name = false)
      (hactual : i.element.params[name]? = none) (hdefault : defaults[name]? = none)
      (hown : (i.proto.formals.contains name || i.proto.params.contains name) = true) :
      Resolves i g defaults m name
        (.sym (i.rename name), m.note name (.sym (i.rename name)))
  | global (hunknown : m.resolved[name]? = none) (hreserved : isReserved name = false)
      (hactual : i.element.params[name]? = none) (hdefault : defaults[name]? = none)
      (hformal : i.proto.formals.contains name = false)
      (hown : i.proto.params.contains name = false) (hglobal : g.contains name = true) :
      Resolves i g defaults m name
        (.sym name, { m with globals := m.globals.insert name }.note name (.sym name))
  | free (hunknown : m.resolved[name]? = none) (hdefault : defaults[name]? = none)
      (hfree : i.Free g name) :
      Resolves i g defaults m name
        (.sym (i.rename name), m.note name (.sym (i.rename name)))

/-- A symbol is resolved in one of the ways. -/
theorem resolves_resolve (i : Instance) (g : Globals) (defaults : NameMap Expr) (m : Memo)
    (name : String) : i.Resolves g defaults m name (i.resolve g defaults m name) := by
  rw [resolve]
  split
  · exact .known ‹_›
  · rename_i hunknown
    split
    · exact .reserved hunknown ‹_›
    · rename_i hreserved
      have hreserved := Bool.eq_false_iff.2 hreserved
      split
      · exact .actual hunknown hreserved ‹_›
      · rename_i hactual
        split
        · exact .default hunknown hreserved hactual ‹_› rfl
        · rename_i hdefault
          split
          · exact .kept hunknown hreserved hactual hdefault ‹_›
          · rename_i hown
            rw [Bool.or_eq_true, not_or] at hown
            have hformal := Bool.eq_false_iff.2 hown.1
            have hown := Bool.eq_false_iff.2 hown.2
            split
            · exact .global hunknown hreserved hactual hdefault hformal hown ‹_›
            · rename_i hglobal
              exact .free hunknown hdefault
                ⟨hreserved, hactual, hformal, hown, Bool.eq_false_iff.2 hglobal⟩

/-- What has been memorised is meant, and the noted global parameters are global. -/
structure Memo.Valid (m : Memo) (i : Instance) (g : Globals) : Prop where
  means : ∀ name v, m.resolved[name]? = some v → i.Means g name v
  globals : ∀ name ∈ m.globals, g.contains name = true

/-- The empty memory is valid. -/
theorem Memo.valid_empty : Memo.empty.Valid i g where
  means := by
    intro name v hv
    exact absurd hv (by simp [Memo.empty])
  globals := by
    intro name hname
    exact absurd hname (by simp [Memo.empty])

/-- What is meant may be memorised. -/
theorem Memo.Valid.note {m : Memo} (h : m.Valid i g) {name : String} {v : Expr}
    (hv : i.Means g name v) : (m.note name v).Valid i g where
  means := by
    intro other v' hv'
    change (m.resolved.insert name v)[other]? = some v' at hv'
    rcases NameMap.getElem?_of_insert hv' with ⟨rfl, rfl⟩ | hold
    · exact hv
    · exact h.means other v' hold
  globals := h.globals

/-- A global parameter that is met may be noted. -/
theorem Memo.Valid.meet {m : Memo} (h : m.Valid i g) {name : String}
    (hglobal : g.contains name = true) :
    Memo.Valid { m with globals := m.globals.insert name } i g where
  means := h.means
  globals := by
    intro other hother
    rcases Std.ExtTreeSet.mem_insert.1 hother with heq | hold
    · rwa [← Std.LawfulEqCmp.compare_eq_iff_eq.1 heq]
    · exact h.globals other hold

/-- What may be assumed while defaults are being resolved: the defaults left are those of formal
parameters, and the other formal parameters have led to the symbol at hand. -/
structure Pending (i : Instance) (defaults : NameMap Expr) (name : String) : Prop where
  left : ∀ (f : String) (d : Expr), defaults[f]? = some d → i.proto.formals[f]? = some d
  opened : ∀ f : String, i.proto.formals.contains f = true → defaults[f]? = none → i.LeadsTo f name

/-- At the beginning no default has been taken away. -/
theorem pending_formals (i : Instance) (name : String) : i.Pending i.proto.formals name where
  left := fun _ _ h => h
  opened := by
    intro f hf hnone
    rw [NameMap.contains_eq_false_iff.2 hnone] at hf
    exact absurd hf Bool.false_ne_true

/-- While a default is being resolved, its formal parameter has led to its symbols, as have all
those before it. -/
theorem Pending.erase {defaults : NameMap Expr} {name : String} (h : i.Pending defaults name)
    (hreserved : isReserved name = false) (hactual : i.element.params[name]? = none)
    {default : Expr} (hdefault : defaults[name]? = some default) {q : String}
    (hq : q ∈ default.symbols) : i.Pending (defaults.erase name) q where
  left := by
    intro f d hd
    exact h.left f d (NameMap.getElem?_of_erase hd)
  opened := by
    have huses : i.DefaultUses name q := ⟨hreserved, hactual, default, h.left _ _ hdefault, hq⟩
    intro f hf hnone
    rw [Std.ExtTreeMap.getElem?_erase] at hnone
    split at hnone
    · rename_i heq
      rw [← Std.LawfulEqCmp.compare_eq_iff_eq.1 heq]
      exact Relation.TransGen.single huses
    · exact (h.opened f hf hnone).tail huses

/-- A parameter of the sub-circuit without a default that is left stands for its renamed self. -/
theorem Pending.means_renamed {defaults : NameMap Expr} {name : String}
    (h : i.Pending defaults name) (hreserved : isReserved name = false)
    (hactual : i.element.params[name]? = none) (hnone : defaults[name]? = none)
    (hknown : (i.proto.formals.contains name || i.proto.params.contains name) = true) :
    i.Means g name (.sym (i.rename name)) := by
  cases hformal : i.proto.formals.contains name with
  | true =>
    -- a formal parameter whose default is not left any more has led back to itself
    have hback : i.LeadsTo name name := h.opened name hformal hnone
    exact .circle hreserved hactual hformal hback
  | false =>
    rw [hformal, Bool.false_or] at hknown
    exact .own hreserved hactual hformal hknown

/-- Resolving several symbols binds each of them, and keeps what is bound already. -/
theorem isSome_resolveAll (defaults : NameMap Expr) (m : Memo) (names : List String)
    (bindings : NameMap Expr) {q : String} (h : q ∈ names ∨ (bindings[q]?).isSome = true) :
    ((i.resolveAll g defaults m names bindings).1[q]?).isSome = true := by
  induction names generalizing m bindings with
  | nil =>
    rw [resolveAll]
    exact h.resolve_left List.not_mem_nil
  | cons name rest ih =>
    rw [resolveAll]
    refine ih _ _ ?_
    rw [Std.ExtTreeMap.getElem?_insert]
    split
    · exact .inr rfl
    · rename_i hne
      rcases h with hq | hq
      · refine .inl ((List.mem_cons.1 hq).resolve_left fun heq => hne ?_)
        rw [heq]
        exact Std.ReflCmp.compare_self
      · exact .inr hq

/-- Resolving several symbols binds each of them to what it means, if resolving one does. -/
theorem resolveAll_spec {defaults : NameMap Expr}
    (hresolve : ∀ (m : Memo) (name : String), m.Valid i g → i.Pending defaults name →
      i.Means g name (i.resolve g defaults m name).1 ∧
        (i.resolve g defaults m name).2.Valid i g)
    (names : List String) (hnames : ∀ name ∈ names, i.Pending defaults name) {m : Memo}
    (hm : m.Valid i g) (bindings : NameMap Expr)
    (hbindings : ∀ q v, bindings[q]? = some v → i.Means g q v) :
    let result := i.resolveAll g defaults m names bindings
    (∀ q v, result.1[q]? = some v → i.Means g q v) ∧ result.2.Valid i g := by
  induction names generalizing m bindings with
  | nil =>
    rw [resolveAll]
    exact ⟨hbindings, hm⟩
  | cons name rest ih =>
    obtain ⟨hfirst, hrest⟩ := List.forall_mem_cons.1 hnames
    obtain ⟨hvalue, hmemo⟩ := hresolve m name hm hfirst
    rw [resolveAll]
    refine ih hrest hmemo _ fun q v hv => ?_
    rcases NameMap.getElem?_of_insert hv with ⟨rfl, rfl⟩ | hold
    · exact hvalue
    · exact hbindings q v hold

/-- Resolution finds what a symbol means, whatever has been memorised. -/
theorem resolve_spec (defaults : NameMap Expr) (m : Memo) (name : String) (hm : m.Valid i g)
    (hpending : i.Pending defaults name) :
    i.Means g name (i.resolve g defaults m name).1 ∧
      (i.resolve g defaults m name).2.Valid i g := by
  -- a default is resolved without itself, so fewer defaults are left for its symbols
  induction hsize : defaults.size using Nat.strongRecOn generalizing defaults m name with
  | ind size ih =>
  have hresolves := i.resolves_resolve g defaults m name
  generalize i.resolve g defaults m name = result at hresolves ⊢
  cases hresolves with
  | known hknown => exact ⟨hm.means name _ hknown, hm⟩
  | reserved _ hreserved => exact ⟨.reserved hreserved, hm.note (.reserved hreserved)⟩
  | actual _ hreserved hactual =>
    exact ⟨.actual hreserved hactual, hm.note (.actual hreserved hactual)⟩
  | @default default bindings m' _ hreserved hactual hdefault hall =>
    obtain ⟨hmeans, hvalid⟩ := resolveAll_spec
      (fun m' q hm' hq => ih (defaults.erase name).size
        (hsize ▸ size_erase_lt hdefault) (defaults.erase name) m' q hm' hq rfl)
      default.symbols.toList
      (fun q hq => hpending.erase hreserved hactual hdefault (Std.ExtTreeSet.mem_toList.1 hq))
      hm ∅ (fun q v hv => absurd hv (by simp))
    have hbound : ∀ q ∈ default.symbols, (bindings[q]?).isSome = true := by
      intro q hq
      have hsome := isSome_resolveAll (i := i) (g := g) (defaults.erase name) m
        default.symbols.toList ∅ (.inl (Std.ExtTreeSet.mem_toList.2 hq))
      rwa [hall] at hsome
    rw [hall] at hmeans hvalid
    have hdone : i.Means g name (default.subst bindings) :=
      .default hreserved hactual (hpending.left name default hdefault) hbound hmeans
    exact ⟨hdone, hvalid.note hdone⟩
  | kept _ hreserved hactual hdefault hown =>
    have hrenamed : i.Means g name (.sym (i.rename name)) :=
      hpending.means_renamed hreserved hactual hdefault hown
    exact ⟨hrenamed, hm.note hrenamed⟩
  | global _ hreserved hactual _ hformal hown hglobal =>
    have hself : i.Means g name (.sym name) := .global hreserved hactual hformal hown hglobal
    exact ⟨hself, (hm.meet hglobal).note hself⟩
  | free _ _ hfree =>
    have hrenamed : i.Means g name (.sym (i.rename name)) := hfree.means_iff.2 rfl
    exact ⟨hrenamed, hm.note hrenamed⟩

end Instance

end FlatNet
