import FlatNet.Proofs.Expansion.Recorded
import FlatNet.Proofs.Instance.Memory
import FlatNet.Proofs.Laplace.Check

/-!
# The Laplace variable in instances

When an instance is expanded, expressions are put in for the symbols in the parameters of elements.
The Laplace variable may come in with a symbol in two ways: in an expression that the instance sets
a parameter to, and in the default of a formal parameter.  Nobody looks for it there, so a copy may
have it where the model of the element forbids it.
-/

set_option autoImplicit false

namespace FlatNet

namespace Instance

/-- What the instance puts in for the symbol contains the Laplace variable. -/
def PutsLaplace (i : Instance) (g : Globals) (q : String) : Prop :=
  ∃ v, (i.known g).resolved[q]? = some v ∧ v.mentions laplaceVariable = true

/-- The Laplace variable may come in with the symbol: the instance sets it to an expression that
contains the Laplace variable, or it is a formal parameter that the instance does not set, and the
default contains it or a symbol that it may come in with. -/
inductive BringsLaplace (i : Instance) : String → Prop
  | actual {q : String} {value : Expr} (hreserved : isReserved q = false)
      (hactual : i.element.params[q]? = some value)
      (hmentions : value.mentions laplaceVariable = true) : BringsLaplace i q
  | default {f : String} (huses : i.DefaultUses f laplaceVariable) : BringsLaplace i f
  | through {f q : String} (huses : i.DefaultUses f q) (hq : BringsLaplace i q) :
      BringsLaplace i f

/-- For no symbol in a parameter of the sub-circuit in which a model forbids the Laplace variable,
the instance puts in an expression that contains it. -/
def KeepsLaplaceOut (i : Instance) (g : Globals) : Prop :=
  ∀ e ∈ i.proto.elements.values, ∀ p, e.primitive? = some p → ∀ (name : String) (value : Expr),
    e.params[name]? = some value → p.forbidsLaplace name = true →
      ∀ q ∈ value.symbols, ¬i.PutsLaplace g q

variable {i : Instance} {g : Globals} {q : String} {v : Expr}

/-- No symbol is renamed to the Laplace variable. -/
theorem rename_ne_laplaceVariable (i : Instance) (name : String) :
    i.rename name ≠ laplaceVariable := by
  intro heq
  have hreserved := i.isReserved_rename name
  rw [heq] at hreserved
  exact absurd hreserved (by decide)

/-- If what a symbol stands for contains the Laplace variable, the symbol is this variable, or the
variable has come in with the symbol. -/
theorem Means.bringsLaplace (h : i.Means g q v) (hv : v.mentions laplaceVariable = true) :
    q = laplaceVariable ∨ i.BringsLaplace q := by
  have hself : ∀ {name : String}, (Expr.sym name).mentions laplaceVariable = true →
      name = laplaceVariable := fun hname =>
    (List.mem_singleton.1 (Expr.mentions_eq_true.1 hname)).symm
  induction h with
  | reserved _ => exact .inl (hself hv)
  | actual hreserved hactual => exact .inr (.actual hreserved hactual hv)
  | @default f value bindings hreserved hactual hformal hbound _ ih =>
    rw [Expr.mentions_eq_true, Expr.mem_occurrences_subst] at hv
    obtain ⟨r, hr, hmentions⟩ := hv
    obtain ⟨u, hu⟩ := Option.isSome_iff_exists.1 (hbound r (Expr.mem_symbols.2 hr))
    rw [hu] at hmentions
    have huses : i.DefaultUses f r := ⟨hreserved, hactual, value, hformal, Expr.mem_symbols.2 hr⟩
    rcases ih r u hu (Expr.mentions_eq_true.2 hmentions) with rfl | hbrings
    · exact .inr (.default huses)
    · exact .inr (.through huses hbrings)
  | global _ _ _ _ _ => exact .inl (hself hv)
  | circle | own | free => exact absurd (hself hv) (i.rename_ne_laplaceVariable _)

/-- If an instance puts in an expression with the Laplace variable for a symbol, the symbol is this
variable, or the variable has come in with the symbol. -/
theorem PutsLaplace.brings (h : i.PutsLaplace g q) : q = laplaceVariable ∨ i.BringsLaplace q := by
  obtain ⟨v, hknown, hv⟩ := h
  exact ((i.valid_known g).means q v hknown).bringsLaplace hv

/-- A reserved symbol stands for itself. -/
theorem Means.eq_of_reserved (h : i.Means g q v) (hreserved : isReserved q = true) :
    v = .sym q := by
  cases h with
  | reserved _ => rfl
  | actual hother | default hother | circle hother | own hother | global hother | free hother =>
    exact absurd (hother.symm.trans hreserved) (by simp)

/-- If no default leads back to its own parameter, a formal parameter that the instance does not set
stands for its default, with what the symbols in it stand for. -/
theorem Means.mem_of_defaultUses (h : i.Means g q v) (hstraight : ∀ f, ¬i.LeadsTo f f) {r : String}
    (huses : i.DefaultUses q r) :
    ∃ u, i.Means g r u ∧ ∀ name ∈ u.occurrences, name ∈ v.occurrences := by
  obtain ⟨hreserved, hnone, value, hformal, hr⟩ := huses
  have hcontains := NameMap.contains_iff.2 ⟨value, hformal⟩
  cases h with
  | reserved hreserved' => exact absurd hreserved' (by simp [hreserved])
  | actual _ hactual => exact absurd (hnone.symm.trans hactual) (by simp)
  | @default _ value' bindings _ _ hformal' hbound hmeans =>
    obtain rfl := Option.some.inj (hformal'.symm.trans hformal)
    obtain ⟨u, hu⟩ := Option.isSome_iff_exists.1 (hbound r hr)
    refine ⟨u, hmeans r u hu, fun name hname => ?_⟩
    rw [Expr.mem_occurrences_subst]
    refine ⟨r, Expr.mem_symbols.1 hr, ?_⟩
    rw [hu]
    exact hname
  | circle _ _ _ hback => exact absurd hback (hstraight q)
  | own _ _ hformal' | global _ _ hformal' | free _ _ hformal' =>
    exact absurd (hcontains.symm.trans hformal') (by simp)

/-- If no default leads back to its own parameter, the Laplace variable does come in with every
symbol that it may come in with. -/
theorem Means.mentions_of_brings (h : i.Means g q v) (hstraight : ∀ f, ¬i.LeadsTo f f)
    (hbrings : i.BringsLaplace q) : v.mentions laplaceVariable = true := by
  rw [Expr.mentions_eq_true]
  induction hbrings generalizing v with
  | actual hreserved hactual hmentions =>
    rw [h.eq_of_actual hreserved hactual]
    exact Expr.mentions_eq_true.1 hmentions
  | default huses =>
    obtain ⟨u, hu, hsub⟩ := h.mem_of_defaultUses hstraight huses
    rw [hu.eq_of_reserved (by decide)] at hsub
    exact hsub _ (List.mem_singleton_self _)
  | through huses _ ih =>
    obtain ⟨u, hu, hsub⟩ := h.mem_of_defaultUses hstraight huses
    exact hsub _ (ih hu)

/-- If no default leads back to its own parameter, an instance puts in an expression with the
Laplace variable for every symbol of the sub-circuit with which the variable may come in. -/
theorem putsLaplace_of_brings (hstraight : ∀ f, ¬i.LeadsTo f f) {e : Expr} (he : e ∈ i.translated)
    (hq : q ∈ e.symbols) (hbrings : i.BringsLaplace q) : i.PutsLaplace g q := by
  obtain ⟨v, hv⟩ := knows_of_needs (g := g) he (.direct hq)
  exact ⟨v, hv, ((i.valid_known g).means q v hv).mentions_of_brings hstraight hbrings⟩

/-- The Laplace variable comes in with a parameter that the instance sets, or with a default. -/
theorem not_bringsLaplace
    (hactuals : ∀ value ∈ i.element.params.values, value.mentions laplaceVariable = false)
    (hdefaults : ∀ value ∈ i.proto.formals.values, value.mentions laplaceVariable = false) :
    ¬i.BringsLaplace q := by
  intro h
  induction h with
  | actual _ hactual hmentions =>
    rw [hactuals _ (NameMap.mem_values.2 ⟨_, hactual⟩)] at hmentions
    exact Bool.false_ne_true hmentions
  | default huses =>
    obtain ⟨-, -, value, hformal, hmem⟩ := huses
    have hmentions := Expr.mentions_eq_true.2 (Expr.mem_symbols.1 hmem)
    rw [hdefaults _ (NameMap.mem_values.2 ⟨_, hformal⟩)] at hmentions
    exact Bool.false_ne_true hmentions
  | through _ _ ih => exact ih

/-- The parameter of a copy contains the Laplace variable exactly if the instance puts it in for a
symbol in the parameter of the element. -/
theorem mentions_subst_iff {e : Expr} (he : e ∈ i.translated) :
    (e.subst (i.known g).resolved).mentions laplaceVariable = true ↔
      ∃ q ∈ e.symbols, i.PutsLaplace g q := by
  rw [Expr.mentions_eq_true, Expr.mem_occurrences_subst]
  constructor
  · rintro ⟨q, hq, hmentions⟩
    have hq := Expr.mem_symbols.2 hq
    obtain ⟨v, hv⟩ := knows_of_needs (g := g) he (.direct hq)
    rw [hv] at hmentions
    exact ⟨q, hq, v, hv, Expr.mentions_eq_true.2 hmentions⟩
  · rintro ⟨q, hq, v, hv, hmentions⟩
    refine ⟨q, Expr.mem_symbols.1 hq, ?_⟩
    rw [hv]
    exact Expr.mentions_eq_true.1 hmentions

/-- Parameters of elements are translated. -/
theorem mem_translated {e : Element} (he : e ∈ i.proto.elements.values) {name : String}
    {value : Expr} (hvalue : e.params[name]? = some value) : value ∈ i.translated :=
  List.mem_append_left _
    (List.mem_flatMap.2 ⟨e, he, NameMap.mem_values.2 ⟨name, hvalue⟩⟩)

/-- A copy is bound as the element is. -/
theorem binding_of_mem_copies {c : Element × Element} (hc : c ∈ i.copies g) :
    c.2.binding = c.1.binding := by
  obtain ⟨-, before, heq⟩ := exists_eq_copy_of_mem_copies hc
  rw [heq]
  rfl

/-- A copy is bound to the primitive model of the element. -/
theorem primitive?_of_mem_copies {c : Element × Element} (hc : c ∈ i.copies g) :
    c.2.primitive? = c.1.primitive? := by
  unfold Element.primitive?
  rw [binding_of_mem_copies hc]

/-- No copy has the Laplace variable where it is forbidden exactly if the instance keeps it out. -/
theorem laplaceFree_copies_iff :
    (∀ c ∈ i.copies g, c.2.LaplaceFree) ↔ i.KeepsLaplaceOut g := by
  constructor
  · intro h e he p hp name value hvalue hforbids q hq hputs
    obtain ⟨c, hc, rfl⟩ := exists_copy g he
    have hcopy := getElem?_params_of_mem_copies hc name
    rw [hvalue] at hcopy
    have hfree := h c hc p ((primitive?_of_mem_copies hc).trans hp) name _ hcopy hforbids
    have hmentions := (mentions_subst_iff (mem_translated he hvalue)).2 ⟨q, hq, hputs⟩
    rw [hfree] at hmentions
    exact Bool.false_ne_true hmentions
  · intro h c hc p hp name outer houter hforbids
    have hmem := (exists_eq_copy_of_mem_copies hc).1
    rw [getElem?_params_of_mem_copies hc] at houter
    obtain ⟨value, hvalue, rfl⟩ := Option.map_eq_some_iff.1 houter
    rw [primitive?_of_mem_copies hc] at hp
    by_contra hmentions
    rw [Bool.not_eq_false, mentions_subst_iff (mem_translated hmem hvalue)] at hmentions
    obtain ⟨q, hq, hputs⟩ := hmentions
    exact h c.1 hmem p hp name value hvalue hforbids q hq hputs

end Instance

end FlatNet
