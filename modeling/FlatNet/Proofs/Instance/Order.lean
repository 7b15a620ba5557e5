import FlatNet.Proofs.Instance.Steady
import FlatNet.Proofs.Ports

/-!
# When the order of first uses does not matter

An instance ignores the order in which symbols are bound exactly if no two of its formal parameters
lead to each other through their defaults.  That it does if there are no such two is
`Untangled.ignoresOrder`.

For the converse let an instance ignore the order.  Then the value of a default is made from the
values of its symbols, so it is at least as large as each of them, and larger than it unless the
default consists of the symbol.  Formal parameters that lead to each other have therefore defaults
that consist of one symbol, and one value, which is one of their renamed symbols.  But the formal
parameter that comes next after this one has another value: visited first, it stops the circle.

`boundAfter_pair` writes out what happens in a circle of two.
-/

set_option autoImplicit false

namespace FlatNet

/-! ## Sizes -/

namespace Expr

mutual

/-- The number of operators, calls, symbols and literals in an expression. -/
def size : Expr → Nat
  | num _ => 1
  | sym _ => 1
  | neg operand => size operand + 1
  | binary _ lhs rhs => size lhs + size rhs + 1
  | call _ args => sizeOfAll args + 1

/-- The sizes of several expressions together. -/
def sizeOfAll : List Expr → Nat
  | [] => 0
  | arg :: args => size arg + sizeOfAll args

end

section Substitution

variable {bindings : NameMap Expr} {q : String} {v : Expr}

mutual

/-- What is put in for a symbol is smaller than the whole, unless the symbol is all there is. -/
theorem size_lt_subst (hq : bindings[q]? = some v) : (e : Expr) → q ∈ e.occurrences →
    e = sym q ∨ v.size < (e.subst bindings).size
  | num _, h => by simp [occurrences] at h
  | sym name, h => .inl (congrArg sym (List.mem_singleton.1 h).symm)
  | neg operand, h => by
    have hle := size_le_subst hq operand h
    rw [subst, size]
    omega
  | binary _ lhs rhs, h => by
    rw [subst, size]
    rcases List.mem_append.1 h with h | h
    · have hle := size_le_subst hq lhs h
      omega
    · have hle := size_le_subst hq rhs h
      omega
  | call _ args, h => by
    have hle := size_le_substAll hq args h
    rw [subst, size]
    omega

/-- What is substituted for a symbol is no larger than the expression that it is substituted in. -/
theorem size_le_subst (hq : bindings[q]? = some v) (e : Expr) (h : q ∈ e.occurrences) :
    v.size ≤ (e.subst bindings).size := by
  rcases size_lt_subst hq e h with rfl | hlt
  · simp [subst, hq]
  · omega

/-- What is substituted for a symbol is no larger than the expressions that it is substituted in. -/
theorem size_le_substAll (hq : bindings[q]? = some v) : (es : List Expr) →
    q ∈ occurrencesOfAll es → v.size ≤ sizeOfAll (substAll bindings es)
  | [], h => by simp [occurrencesOfAll] at h
  | e :: es, h => by
    rw [substAll, sizeOfAll]
    rcases List.mem_append.1 h with h | h
    · have hle := size_le_subst hq e h
      omega
    · have hle := size_le_substAll hq es h
      omega

end

end Substitution

end Expr

namespace Instance

variable {i : Instance} {g : Globals}

/-! ## Symbols bound as the first ones -/

/-- A symbol that is bound first is resolved from the empty memory. -/
theorem boundAfter_nil (i : Instance) (g : Globals) (name : String) :
    i.boundAfter g [] name = (i.resolve g i.proto.formals .empty name).1 := by
  rw [boundAfter, row, resolveAll]

/-- Binding one symbol leaves the memory of resolving it. -/
theorem row_singleton (i : Instance) (g : Globals) (name : String) :
    i.row g [name] = (i.resolve g i.proto.formals .empty name).2 := by
  rw [row, resolveAll]
  exact congrArg Prod.snd (resolveAll.eq_def _ _ _ _ [] _)

/-- A symbol that is bound first is bound to what it means. -/
theorem means_boundAfter_nil (i : Instance) (g : Globals) (name : String) :
    i.Means g name (i.boundAfter g [] name) := by
  rw [boundAfter_nil]
  exact (resolve_spec i.proto.formals .empty name Memo.valid_empty (i.pending_formals name)).1

/-- If the order is ignored, a default that is used is rewritten with the values that its symbols
get as the first ones; only its own symbol may have another value. -/
theorem IgnoresOrder.exists_bindings (h : i.IgnoresOrder g) {f : String} {default : Expr}
    (hnone : i.outright? g f = none) (hformal : i.proto.formals[f]? = some default) :
    ∃ bindings : NameMap Expr, i.boundAfter g [] f = default.subst bindings ∧
      ∀ q ∈ default.symbols, q ≠ f → bindings[q]? = some (i.boundAfter g [] q) := by
  obtain ⟨hreserved, hactual, -⟩ := outright?_eq_none_iff.1 hnone
  have hresolve : i.resolve g i.proto.formals .empty f = _ :=
    resolve_of_default rfl hreserved hactual hformal
  have hlearns := (i.resolveAll_learns (g := g)
    (resolve_learns (i.proto.formals.erase f) fun _ _ => NameMap.getElem?_of_erase)
    default.symbols.toList Memo.closed_empty ∅ fun q v hv => absurd hv (by simp)).2.2
  refine ⟨_, (i.boundAfter_nil g f).trans (congrArg Prod.fst hresolve), fun q hq hne => ?_⟩
  obtain ⟨v, hv⟩ := Option.isSome_iff_exists.1
    (isSome_resolveAll (i := i) (g := g) (i.proto.formals.erase f) .empty _ ∅
      (.inl (Std.ExtTreeSet.mem_toList.2 hq)))
  -- the value is still known when `f` has been bound
  have hrow : (i.row g [f]).resolved[q]? = some v := by
    rw [row_singleton, hresolve]
    exact (NameMap.getElem?_insert_of_ne (Ne.symm hne) _).trans (hlearns q v hv)
  have hafter : i.boundAfter g [f] q = v := by
    rw [boundAfter, resolve, hrow]
  rw [hv, ← hafter, h.symbols]

/-- If the order is ignored, values grow along defaults, unless a default is one symbol. -/
theorem IgnoresOrder.size_lt (h : i.IgnoresOrder g) {f q : String} (huses : i.DefaultUses f q)
    (hne : q ≠ f) : i.proto.formals[f]? = some (.sym q) ∨
      (i.boundAfter g [] q).size < (i.boundAfter g [] f).size := by
  have hnone : i.outright? g f = none := LeadsTo.outright?_eq_none (.single huses)
  obtain ⟨-, -, default, hformal, hq⟩ := huses
  obtain ⟨bindings, hvalue, hbound⟩ := h.exists_bindings hnone hformal
  rw [hvalue, hformal]
  exact (Expr.size_lt_subst (hbound q hq hne) default (Expr.mem_symbols.1 hq)).imp_left
    (congrArg some)

/-- If the order is ignored, a default that is one symbol has the value of that symbol. -/
theorem IgnoresOrder.boundAfter_eq (h : i.IgnoresOrder g) {f q : String}
    (hnone : i.outright? g f = none) (hformal : i.proto.formals[f]? = some (.sym q))
    (hne : q ≠ f) : i.boundAfter g [] f = i.boundAfter g [] q := by
  obtain ⟨bindings, hvalue, hbound⟩ := h.exists_bindings hnone hformal
  have hq : q ∈ (Expr.sym q).symbols := Expr.mem_symbols.2 (List.mem_singleton_self q)
  rw [hvalue, Expr.subst, hbound q hq hne]
  rfl

/-- If the order makes no difference, a default has a value at least as large as that of each formal
parameter that it leads to. -/
theorem IgnoresOrder.size_le (h : i.IgnoresOrder g) {f q : String} (hleads : i.LeadsTo f q) :
    (i.boundAfter g [] q).size ≤ (i.boundAfter g [] f).size := by
  have hstep : ∀ {f q}, i.DefaultUses f q →
      (i.boundAfter g [] q).size ≤ (i.boundAfter g [] f).size := by
    intro f q huses
    by_cases hne : q = f
    · exact Nat.le_of_eq (by rw [hne])
    · rcases h.size_lt huses hne with hformal | hlt
      · have hsame := h.boundAfter_eq (LeadsTo.outright?_eq_none (.single huses)) hformal hne
        exact Nat.le_of_eq (by rw [hsame])
      · exact Nat.le_of_lt hlt
  induction hleads with
  | single huses => exact hstep huses
  | tail _ huses ih => exact Nat.le_trans (hstep huses) ih

/-! ## Circles -/

/-- The formal parameter and another one lead to each other. -/
def Tangled (i : Instance) (f : String) : Prop := ∃ f', f' ≠ f ∧ i.LeadsTo f f' ∧ i.LeadsTo f' f

/-- A tangled symbol is a formal parameter whose default is used. -/
theorem Tangled.formal {f : String} (h : i.Tangled f) : isReserved f = false ∧
    i.element.params[f]? = none ∧ i.proto.formals.contains f = true := by
  obtain ⟨f', -, hleads, -⟩ := h
  exact hleads.formal

/-- Whatever leads to another symbol has a default with another symbol on the way. -/
theorem LeadsTo.exists_defaultUses_ne {f f' : String} (h : i.LeadsTo f f') (hne : f' ≠ f) :
    ∃ q, q ≠ f ∧ i.DefaultUses f q ∧ (q = f' ∨ i.LeadsTo q f') := by
  induction h using Relation.TransGen.head_induction_on with
  | single huses => exact ⟨f', hne, huses, .inl rfl⟩
  | @head f q huses hleads ih =>
    by_cases hself : q = f
    · subst hself
      exact ih hne
    · exact ⟨q, hself, huses, .inr hleads⟩

/-- If the order is ignored, the default of a formal parameter in a circle is the next one. -/
theorem IgnoresOrder.exists_next (h : i.IgnoresOrder g) {f : String} (hf : i.Tangled f) :
    ∃ q, i.Tangled q ∧ q ≠ f ∧ i.proto.formals[f]? = some (.sym q) ∧
      i.boundAfter g [] f = i.boundAfter g [] q := by
  obtain ⟨f', hne, hthere, hback⟩ := hf
  obtain ⟨q, hqf, huses, hrest⟩ := hthere.exists_defaultUses_ne hne
  have hqback : i.LeadsTo q f := by
    rcases hrest with rfl | hrest
    · exact hback
    · exact hrest.trans hback
  -- the value of `q` is not the smaller one, so the default has nothing but `q`
  have hle := h.size_le hqback
  have hformal := (h.size_lt huses hqf).resolve_right (Nat.not_lt.2 hle)
  exact ⟨q, ⟨f, Ne.symm hqf, hqback, .single huses⟩, hqf, hformal,
    h.boundAfter_eq hthere.outright?_eq_none hformal hqf⟩

/-- If the order is ignored, all that a formal parameter in a circle can stand for is the renamed
symbol of one with its value. -/
theorem IgnoresOrder.eq_renamed (h : i.IgnoresOrder g) {f : String} {value : Expr}
    (hmeans : i.Means g f value) : i.Tangled f → ∃ z, i.Tangled z ∧
      value = .sym (i.rename z) ∧ i.boundAfter g [] z = i.boundAfter g [] f := by
  induction hmeans with
  | @circle f => exact fun hf => ⟨f, hf, rfl, rfl⟩
  | @default f default bindings _ _ hformal hbound _ ih =>
    intro hf
    obtain ⟨q, hq, -, hsym, hvalue⟩ := h.exists_next hf
    obtain rfl : Expr.sym q = default := Option.some.inj (hsym.symm.trans hformal)
    obtain ⟨v, hv⟩ := Option.isSome_iff_exists.1
      (hbound q (Expr.mem_symbols.2 (List.mem_singleton_self q)))
    obtain ⟨z, hz, hrenamed, hsame⟩ := ih q v hv hq
    refine ⟨z, hz, ?_, hsame.trans hvalue.symm⟩
    rw [Expr.subst, hv, ← hrenamed]
    rfl
  | reserved hreserved =>
    intro hf
    simp [hf.formal.1] at hreserved
  | actual _ hactual =>
    intro hf
    simp [hf.formal.2.1] at hactual
  | own _ _ hformal | global _ _ hformal | free _ _ hformal =>
    intro hf
    simp [hf.formal.2.2] at hformal

/-- From the formal parameter `t` that comes next after `z` the circle ends before `z` is met a
second time.  While `z` is being visited, so is `t`, and it is met next. -/
theorem IgnoresOrder.ne_renamed (h : i.IgnoresOrder g) {z t : String} (htz : t ≠ z)
    (hnext : i.proto.formals[z]? = some (.sym t)) {n : Nat} {visiting : List String} {f : String}
    {value : Expr} {m' : Memo} (hbinds : i.Binds g n visiting .empty f value m')
    (hf : i.Tangled f) (hopen : f = t ∨ t ∈ visiting)
    (hlast : z ∈ visiting → f = t ∧ t ∈ visiting) : value ≠ .sym (i.rename z) := by
  induction n using Nat.strongRecOn generalizing visiting f value m' with
  | ind n ih =>
  obtain ⟨hfree, hunset, hcontains⟩ := hf.formal
  cases hbinds with
  | @default n _ _ _ _ default bindings _ _ _ hformal hfirst hall =>
    obtain ⟨q, hq, -, hsym, -⟩ := h.exists_next hf
    obtain rfl : Expr.sym q = default := Option.some.inj (hsym.symm.trans hformal)
    have hlist : (Expr.sym q).symbols.toList = [q] := rfl
    rw [hlist] at hall
    cases hall with
    | @cons _ _ _ _ _ _ v _ _ _ hbindsq hrest =>
    cases hrest
    -- what is visited next is `q`, and this is `t` if it is `z` that is being visited now
    have hvisited : t ∈ f :: visiting := by
      rcases hopen with rfl | hopen
      · exact List.mem_cons_self
      · exact List.mem_cons_of_mem f hopen
    have hvalue : v ≠ .sym (i.rename z) := by
      refine ih n (Nat.lt_succ_self n) hbindsq hq (.inr hvisited) fun hmem => ⟨?_, hvisited⟩
      rcases List.mem_cons.1 hmem with rfl | hmem
      · have hsame := hsym.symm.trans hnext
        exact Expr.sym.inj (Option.some.inj hsame)
      · obtain ⟨rfl, hagain⟩ := hlast hmem
        exact absurd hagain hfirst
    rw [Expr.subst, Std.ExtTreeMap.getElem?_insert_self]
    exact hvalue
  | circle _ _ _ _ hagain =>
    -- the circle ends at `t` if `z` is being visited, and `t` is not `z`
    intro heq
    have hfz : f = z := i.rename_injective (Expr.sym.inj heq)
    subst hfz
    exact htz (hlast hagain).1.symm
  | known hknown => simp [Memo.empty] at hknown
  | reserved _ hreserved => simp [hfree] at hreserved
  | actual _ _ hactual => simp [hunset] at hactual
  | own _ _ _ hformal => simp [hcontains] at hformal
  | «global» _ hglobal => simp [hglobal.formal] at hcontains
  | free _ hfree => simp [hfree.formal] at hcontains

/-- An instance ignores the order in which symbols are bound exactly if no two different formal
parameters lead to each other through defaults that it does not override. -/
theorem ignoresOrder_iff (i : Instance) (g : Globals) :
    i.IgnoresOrder g ↔ ∀ f f', i.LeadsTo f f' → i.LeadsTo f' f → f = f' := by
  refine ⟨fun h f f' hthere hback => ?_, fun h => Untangled.ignoresOrder h g⟩
  by_contra hne
  obtain ⟨z, hz, hrenamed, hsame⟩ :=
    h.eq_renamed (i.means_boundAfter_nil g f) ⟨f', Ne.symm hne, hthere, hback⟩
  obtain ⟨t, ht, htz, hnext, hvalue⟩ := h.exists_next hz
  have hbinds := binds_resolve (g := g) i.unvisited_nil .empty t
  rw [← boundAfter_nil] at hbinds
  refine h.ne_renamed htz hnext hbinds ht (.inl rfl) (fun hmem => absurd hmem List.not_mem_nil) ?_
  rw [← hvalue, hsame, hrenamed]

section Pair

variable {f f' : String} {default default' : Expr}

/-- A symbol by itself is bound as a row of one. -/
theorem Binds.single {n : Nat} {visiting : List String} {m m' : Memo} {value : Expr}
    (h : i.Binds g n visiting m f value m') {names : List String} (hlist : names = [f]) :
    i.BindsAll g n visiting m names ∅ ((∅ : NameMap Expr).insert f value) m' := by
  rw [hlist]
  exact .cons h .nil

/-- The first of two formal parameters whose defaults have each other as their only symbol is bound
to both defaults, put into each other.  The second one is noted on the way, when the first is only
its renamed symbol. -/
theorem resolve_pair (hne : f ≠ f') (hnone : i.outright? g f = none)
    (hnone' : i.outright? g f' = none) (hformal : i.proto.formals[f]? = some default)
    (hformal' : i.proto.formals[f']? = some default') (hlist : default.symbols.toList = [f'])
    (hlist' : default'.symbols.toList = [f]) :
    let stopped : NameMap Expr := (∅ : NameMap Expr).insert f (.sym (i.rename f))
    let value := default.subst ((∅ : NameMap Expr).insert f' (default'.subst stopped))
    i.resolve g i.proto.formals .empty f = (value,
      ((Memo.empty.note f (.sym (i.rename f))).note f' (default'.subst stopped)).note f value) := by
  obtain ⟨hreserved, hactual, hcontains⟩ := outright?_eq_none_iff.1 hnone
  obtain ⟨hreserved', hactual', -⟩ := outright?_eq_none_iff.1 hnone'
  have hunknown : (Memo.empty.resolved)[f]? = none := by simp [Memo.empty]
  have hunknown' : (Memo.empty.resolved)[f']? = none := by simp [Memo.empty]
  have hcircle : i.Binds g 0 [f', f] .empty f _ _ :=
    .circle hunknown hreserved hactual hcontains (by simp)
  have hinner : i.Binds g 1 [f] .empty f' _ _ :=
    .default hunknown' hreserved' hactual' hformal' (by simp [Ne.symm hne]) (hcircle.single hlist')
  have houter : i.Binds g 2 [] .empty f _ _ :=
    .default hunknown hreserved hactual hformal List.not_mem_nil (hinner.single hlist)
  exact resolve_of_binds houter i.unvisited_nil

/-- The second one keeps the renamed symbol of the first in its value, unless it is bound before. -/
theorem boundAfter_pair (hne : f ≠ f') (hnone : i.outright? g f = none)
    (hnone' : i.outright? g f' = none) (hformal : i.proto.formals[f]? = some default)
    (hformal' : i.proto.formals[f']? = some default') (hlist : default.symbols.toList = [f'])
    (hlist' : default'.symbols.toList = [f]) :
    i.boundAfter g [f] f' =
        default'.subst ((∅ : NameMap Expr).insert f (.sym (i.rename f))) ∧
      i.boundAfter g [] f' = default'.subst ((∅ : NameMap Expr).insert f
        (default.subst ((∅ : NameMap Expr).insert f' (.sym (i.rename f'))))) := by
  refine ⟨?_, ?_⟩
  · have hknown : (i.row g [f]).resolved[f']? =
        some (default'.subst ((∅ : NameMap Expr).insert f (.sym (i.rename f)))) := by
      rw [row_singleton, resolve_pair hne hnone hnone' hformal hformal' hlist hlist']
      exact (NameMap.getElem?_insert_of_ne hne _).trans Std.ExtTreeMap.getElem?_insert_self
    rw [boundAfter, resolve, hknown]
  · rw [boundAfter_nil, resolve_pair (Ne.symm hne) hnone' hnone hformal' hformal hlist' hlist]

end Pair

end Instance

namespace Workspace

/-- A netlist with two formal parameters whose defaults use each other. -/
def circularText : String :=
  "t\n.subckt P x y a=\x7bb+1\x7d b=\x7ba+1\x7d\nR1 x y \x7ba\x7d\nR2 x y \x7bb\x7d\n.ends\n" ++
    "X1 1 0 P\n.end\n"

/-- Looks for defaults of `a` and `b` that use each other and are used, and says how the one of `b`
is rewritten when `a` is bound before, and by itself. -/
def isCircular (i : Instance) : Bool :=
  (i.element.params["a"]?).isNone && (i.element.params["b"]?).isNone &&
    (i.proto.formals["a"]?).any fun default => (i.proto.formals["b"]?).any fun default' =>
      default.symbols.toList == ["b"] && default'.symbols.toList == ["a"] &&
        (default'.subst ((∅ : NameMap Expr).insert "a" (.sym (i.rename "a")))).text == "a_X1+1" &&
        (default'.subst ((∅ : NameMap Expr).insert "a"
          (default.subst ((∅ : NameMap Expr).insert "b" (.sym (i.rename "b")))))).text ==
          "b_X1+1+1"

/-- In such a netlist the value of `b` depends on whether `a` has been bound before. -/
theorem text_boundAfter_of_isCircular {i : Instance} (g : Globals) (h : isCircular i = true) :
    (i.boundAfter g ["a"] "b").text = "a_X1+1" ∧ (i.boundAfter g [] "b").text = "b_X1+1+1" := by
  unfold isCircular at h
  simp only [Bool.and_eq_true, Option.any_eq_true, Option.isNone_iff_eq_none, beq_iff_eq] at h
  obtain ⟨⟨hactual, hactual'⟩, default, hformal, default', hformal', ⟨⟨hlist, hlist'⟩, hafter⟩,
    hfirst⟩ := h
  have hnone : i.outright? g "a" = none := Instance.outright?_eq_none_iff.2
    ⟨by decide, hactual, NameMap.contains_iff.2 ⟨default, hformal⟩⟩
  have hnone' : i.outright? g "b" = none := Instance.outright?_eq_none_iff.2
    ⟨by decide, hactual', NameMap.contains_iff.2 ⟨default', hformal'⟩⟩
  obtain ⟨hpairAfter, hpairFirst⟩ :=
    Instance.boundAfter_pair (by decide) hnone hnone' hformal hformal' hlist hlist'
  rw [hpairAfter, hpairFirst]
  exact ⟨hafter, hfirst⟩

set_option maxRecDepth 100000 in
/-- The netlist is accepted, but inside its instance the value of `b` depends on whether `a` has
been bound before. -/
theorem not_ignoresOrder_circular :
    (bare.compile Disk.empty "main.cir" circularText).2.errors = 0 ∧
      ∃ o i, o ∈ (settled circularText).expanded ∧
        (settled circularText).expansionSetting.instance? o.outer = some i ∧
        (i.boundAfter (settled circularText).globals ["a"] "b").text = "a_X1+1" ∧
        (i.boundAfter (settled circularText).globals [] "b").text = "b_X1+1+1" ∧
        ¬i.IgnoresOrder (settled circularText).globals := by
  constructor
  · refine errors_compile_eq_zero (by decide +kernel) (by decide +kernel) ?_
    exact contains_connectedNodes_flatten "R1_X1" groundNode (by decide +kernel) (by decide +kernel)
  · have hany : ((settled circularText).expanded.any fun o =>
        ((settled circularText).expansionSetting.instance? o.outer).any isCircular) = true := by
      decide +kernel
    obtain ⟨o, i, ho, hi, htest⟩ := exists_instance_of_any hany
    obtain ⟨hafter, hfirst⟩ := text_boundAfter_of_isCircular (settled circularText).globals htest
    refine ⟨o, i, ho, hi, hafter, hfirst, fun hignores => ?_⟩
    rw [hignores.symbols, hfirst] at hafter
    exact absurd hafter (by decide)

end Workspace

end FlatNet
