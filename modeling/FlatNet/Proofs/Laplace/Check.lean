import FlatNet.Proofs.Closure
import FlatNet.Proofs.Lookup

/-!
# Where the Laplace variable is forbidden

A primitive model forbids the Laplace variable in some of its parameters.  It is looked for on the
lines of elements and in named models, where the settings say whether it is an error.  An element
that is bound without errors has it in no such parameter, unless a named model does
(`Definition.laplaceFree_resolved`).

A library may have been compiled while it was no error, and where it is one, a named model outside
all sub-circuits is held back for it, but not the sub-circuits that use it.  So the elements of a
library are only known to be free of it if the named models are that its text could use.
-/

set_option autoImplicit false

namespace FlatNet

/-- The Laplace variable occurs in none of the parameters in which the model forbids it. -/
def Primitive.Admits (p : Primitive) (params : NameMap Expr) : Prop :=
  ∀ (name : String) (value : Expr), params[name]? = some value →
    p.forbidsLaplace name = true → value.mentions laplaceVariable = false

/-- The Laplace variable occurs in no parameter in which the element's model forbids it. -/
def Element.LaplaceFree (e : Element) : Prop :=
  ∀ p, e.primitive? = some p → p.Admits e.params

/-- If nothing is wrong with the element, it has the Laplace variable in no parameter in which its
model forbids it. -/
def Bound.LaplaceFree (b : Bound) : Prop := b.findings = [] → b.element.LaplaceFree

/-- The Laplace variable occurs in no parameter in which the base of the named model forbids it. -/
def ModelCard.LaplaceFree (card : ModelCard) : Prop :=
  ∀ p, card.base? = some p → p.Admits card.params

/-- The named models of the definition are free of the Laplace variable. -/
def Definition.CardsFree (d : Definition) : Prop := ∀ card ∈ d.models.values, card.LaplaceFree

/-- The named models of all definitions are free of the Laplace variable. -/
def Forest.CardsFree (forest : Forest) : Prop :=
  ∀ (path : String) (d : Definition), forest[path]? = some d → d.CardsFree

/-- The named models of the library are free of the Laplace variable. -/
def Library.CardsFree (lib : Library) : Prop := ∀ card ∈ lib.models.values, card.LaplaceFree

/-- The named models of both libraries are free of the Laplace variable. -/
def Stock.CardsFree (s : Stock) : Prop := ∀ kind, (s.library kind).CardsFree

/-- The named models of both libraries are free of the Laplace variable. -/
structure Surroundings.CardsFree (s : Surroundings) : Prop where
  user : s.user.CardsFree
  builtin : s.builtin.CardsFree

/-- The named models that the text can use are free of the Laplace variable: those of the libraries
at hand, and its own ones. -/
structure Promotion.CardsFree (p : Promotion) : Prop where
  before : p.before.CardsFree
  text : p.defs.CardsFree

namespace Element

/-- Looks for the Laplace variable in the parameters in which the element's model forbids it. -/
def isLaplaceFree (e : Element) : Bool :=
  e.primitive?.all fun p => e.params.toList.all fun entry =>
    !(p.forbidsLaplace entry.1 && entry.2.mentions laplaceVariable)

/-- Whether an element is free of the Laplace variable can be computed. -/
theorem isLaplaceFree_iff {e : Element} : e.isLaplaceFree = true ↔ e.LaplaceFree := by
  unfold isLaplaceFree
  rw [Option.all_eq_true]
  refine forall₂_congr fun p _ => ?_
  rw [List.all_eq_true]
  constructor
  · intro h name value hvalue hforbids
    have hentry := h (name, value) (Std.ExtTreeMap.mem_toList_iff_getElem?_eq_some.2 hvalue)
    rw [hforbids, Bool.true_and, Bool.not_eq_true'] at hentry
    exact hentry
  · intro h entry hentry
    cases hforbids : p.forbidsLaplace entry.1 with
    | false => rfl
    | true =>
      rw [h entry.1 entry.2 (Std.ExtTreeMap.mem_toList_iff_getElem?_eq_some.1 hentry) hforbids]
      rfl

end Element

/-! ## Elements -/

section Bind

variable {s : Surroundings} {defs : Forest} {e : Element} {p : Primitive}

/-- A model that is found among models free of the Laplace variable is free of it. -/
theorem Surroundings.CardsFree.of_findModel? (hs : s.CardsFree) (hdefs : defs.CardsFree)
    {owner : Definition} (howner : owner.CardsFree) {name : String} {card : ModelCard}
    (h : s.findModel? defs owner name = some card) : card.LaplaceFree := by
  rcases Surroundings.mem_models_of_findModel? h with h | ⟨scope, d, hd, h⟩ | h | h
  · exact howner card h
  · exact hdefs scope d hd card h
  · exact hs.user card h
  · exact hs.builtin card h

namespace Element

/-- An element that is bound to no primitive model has no parameter in which the variable is
forbidden. -/
theorem laplaceFree_of_primitive?_eq_none (h : e.primitive? = none) : e.LaplaceFree := by
  intro p hp
  rw [h] at hp
  exact absurd hp (by simp)

/-- Without findings the parameters on an element's line are admitted. -/
theorem admits_of_paramFindings (h : e.paramFindings p = []) : p.Admits e.params := by
  intro name value hvalue hforbids
  have hentry := List.filterMap_eq_nil_iff.1 h (name, value)
    (Std.ExtTreeMap.mem_toList_iff_getElem?_eq_some.2 hvalue)
  by_contra hmentions
  obtain ⟨spec, hspec, -⟩ := (Option.any_eq_true _ _).1 hforbids
  have hboth := Bool.and_eq_true_iff.2 ⟨hforbids, Bool.not_eq_false _ ▸ hmentions⟩
  dsimp only at hentry
  rw [hspec, Option.isNone_some, if_neg Bool.false_ne_true, if_pos hboth] at hentry
  exact absurd hentry (by simp)

/-- Defaults are admitted if they are each on its own. -/
theorem admits_withDefaults (h : p.Admits e.params) {defaults : List (String × Expr)}
    (hdefaults : ∀ entry ∈ defaults, p.forbidsLaplace entry.1 = true →
      entry.2.mentions laplaceVariable = false) : p.Admits (e.withDefaults defaults).params := by
  intro name value hvalue
  rcases NameMap.getElem?_foldl_insertIfNew hvalue with hold | hmem
  · exact h name value hold
  · exact hdefaults _ hmem

/-- An element whose parameters are admitted is bound to a primitive model without the Laplace
variable where it is forbidden: the defaults of the model are numbers. -/
theorem laplaceFree_bindPrimitive (hunbound : e.primitive? = none) (h : p.Admits e.params) :
    (e.bindPrimitive s defs p).element.LaplaceFree := by
  unfold bindPrimitive
  split
  · intro q hq
    obtain rfl : p = q := Option.some.inj hq
    refine admits_withDefaults h fun entry hentry _ => ?_
    obtain ⟨spec, -, rfl⟩ := List.mem_map.1 hentry
    rfl
  · split
    · exact laplaceFree_of_primitive?_eq_none hunbound
    · exact laplaceFree_of_primitive?_eq_none rfl

/-- Binding to a named model lets no Laplace variable through, if the model has none. -/
theorem laplaceFree_bindModel (hunbound : e.primitive? = none) {card : Option ModelCard}
    (hcard : ∀ c ∈ card, p.Admits c.params) : (e.bindModel s defs p card).LaplaceFree := by
  unfold bindModel
  split
  · intro hnil
    have hline := admits_of_paramFindings (List.append_eq_nil_iff.1 hnil).1
    cases card with
    | none => exact laplaceFree_bindPrimitive hunbound hline
    | some c =>
      refine laplaceFree_bindPrimitive (e := e.withCard c p) hunbound ?_
      refine admits_withDefaults hline fun entry hentry => ?_
      have hmem := Std.ExtTreeMap.mem_toList_iff_getElem?_eq_some.1 (List.mem_of_mem_filter hentry)
      exact hcard c rfl entry.1 entry.2 hmem
  · exact fun _ => laplaceFree_of_primitive?_eq_none hunbound

/-- An element that is bound without findings has the Laplace variable in no parameter in which its
model forbids it, if the named models are free of it. -/
theorem laplaceFree_bind (hunbound : e.primitive? = none) {owner : Definition}
    (hcards : ∀ name card, s.findModel? defs owner name = some card → card.LaplaceFree) :
    (e.bind s defs owner).LaplaceFree := by
  have hbound := e.boundBy_bind s defs owner
  generalize e.bind s defs owner = b at hbound ⊢
  cases hbound with
  | circuit _ _ => exact fun _ => laplaceFree_of_primitive?_eq_none rfl
  | primitive _ _ => exact laplaceFree_bindModel hunbound (by simp)
  | card _ _ hcard hbase =>
    refine laplaceFree_bindModel hunbound fun c hc => ?_
    obtain rfl := Option.some.inj hc
    exact hcards _ _ hcard _ hbase
  | unknownCircuit _ _ | unknownModel _ _ _ | unknownBase _ _ =>
    exact fun _ => laplaceFree_of_primitive?_eq_none hunbound

end Element

/-! ## Definitions -/

/-- A definition that is resolved without errors has elements without the Laplace variable where it
is forbidden, if the named models are free of it. -/
theorem Definition.laplaceFree_resolved {d : Definition} (hunbound : d.Unbound)
    (hs : s.CardsFree) (hdefs : defs.CardsFree) (hd : d.CardsFree)
    (h : ∀ f ∈ (d.resolve s defs).2, f.isError = false) :
    ∀ e ∈ (d.resolved s defs).elements.values, e.LaplaceFree := by
  intro e' he'
  obtain ⟨e, he, rfl⟩ := mem_values_resolved.1 he'
  have hnil := findings_bindOne_eq_nil he h
  have hunresolved := hunbound e he
  unfold bindOne at hnil ⊢
  rw [if_pos hunresolved] at hnil ⊢
  exact Element.laplaceFree_bind (Element.primitive?_eq_none_of_isUnresolved hunresolved)
    (fun _ _ hcard => hs.of_findModel? hdefs hd hcard) hnil

end Bind

/-- A named model with which nothing is wrong is free of the Laplace variable, where this is an
error. -/
theorem ModelCard.laplaceFree_of_findings {card : ModelCard}
    (h : ∀ f ∈ card.findings .error, f.isError = false) : card.LaplaceFree := by
  intro p hbase name value hvalue hforbids
  by_contra hmentions
  obtain ⟨spec, hspec, -⟩ := (Option.any_eq_true _ _).1 hforbids
  have hboth := Bool.and_eq_true_iff.2 ⟨hforbids, Bool.not_eq_false _ ▸ hmentions⟩
  have hmem : ⟨.laplaceNotAllowed card.name name laplaceVariable, .error, some card.origin⟩ ∈
      card.findings .error := by
    unfold findings
    rw [hbase]
    refine List.mem_filterMap.2
      ⟨(name, value), Std.ExtTreeMap.mem_toList_iff_getElem?_eq_some.2 hvalue, ?_⟩
    dsimp only
    rw [hspec, Option.isNone_some, if_neg Bool.false_ne_true, if_pos hboth]
  exact absurd (h _ hmem) (by simp [Finding.isError])

namespace Forest

variable {s : Surroundings} {forest : Forest} {path : String} {d : Definition}

/-- Where the Laplace variable is an error, the named models of a definition without errors are free
of it. -/
theorem cardsFree_of_errors_eq_zero (hseverity : s.laplaceSeverity = .error)
    (hd : (forest.resolve s).1[path]? = some d) (h : d.errors = 0) : d.CardsFree := by
  obtain ⟨d₀, defs, -, rfl, -⟩ := resolve_spec hd
  intro card hcard
  refine ModelCard.laplaceFree_of_findings fun f hf => ?_
  have hmem : f ∈ (d₀.resolve s defs).2 := by
    refine List.mem_append_left _ (List.mem_append_right _ (List.mem_flatMap_of_mem hcard ?_))
    rw [hseverity]
    exact hf
  exact (Definition.errors_of_resolved h).2 f hmem

/-- Definitions that show the same named models have the same ones free of the Laplace variable. -/
theorem Agree.cardsFree {defs defs' : Forest} (h : defs.Agree defs') (hfree : defs'.CardsFree) :
    defs.CardsFree := by
  intro path d hd
  have hpath := h path
  rw [hd] at hpath
  obtain ⟨d', hd', houtside⟩ := Option.map_eq_some_iff.1 hpath.symm
  have hmodels : d'.models = d.models := congrArg Prod.snd houtside
  intro card hcard
  rw [← hmodels] at hcard
  exact hfree path d' hd' card hcard

/-- In a definition without errors no element has the Laplace variable where it is forbidden, if the
named models are free of it. -/
theorem laplaceFree_of_errors_eq_zero (hunbound : forest.Unbound) (hs : s.CardsFree)
    (hfree : forest.CardsFree) (hd : (forest.resolve s).1[path]? = some d) (h : d.errors = 0) :
    ∀ e ∈ d.elements.values, e.LaplaceFree := by
  obtain ⟨d₀, paths, hd₀, -, rfl, -⟩ := exists_resolved_behind hd
  have hdefs := (agree_foldl_resolveAt (s := s) paths (forest, [])).cardsFree hfree
  exact Definition.laplaceFree_resolved (hunbound path d₀ hd₀) hs hdefs (hfree path d₀ hd₀)
    (Definition.errors_of_resolved h).2

end Forest

/-! ## Libraries -/

/-- The empty library has no models. -/
theorem Library.cardsFree_empty : Library.empty.CardsFree := fun _ hcard =>
  absurd (NameMap.mem_values.1 hcard) (by simp [Library.empty])

/-- The named models of a library stay free of the Laplace variable if those are that a text
adds. -/
theorem Library.CardsFree.promote {lib : Library} (h : lib.CardsFree) {defs : Forest}
    (hdefs : ∀ root, (admissible defs)[""]? = some root → root.CardsFree) :
    (lib.promote defs).CardsFree := by
  intro card hcard
  unfold Library.promote at hcard
  dsimp only at hcard
  split at hcard
  · rename_i root hroot
    obtain ⟨name, hname⟩ := NameMap.mem_values.1 hcard
    rcases NameMap.getElem?_keepFirst hname with hold | hnew
    · exact h card (NameMap.mem_values.2 ⟨name, hold⟩)
    · exact hdefs root hroot card (NameMap.mem_values.2 ⟨name, hnew⟩)
  · exact h card hcard

/-- Names are resolved against models free of the Laplace variable, if those of the stock are. -/
theorem Stock.CardsFree.surroundings {s : Stock} (h : s.CardsFree) (store : Store)
    (laplaceSeverity : Severity) :
    Surroundings.CardsFree ⟨store, s.user, s.builtin, laplaceSeverity⟩ :=
  ⟨h .user, h .builtin⟩

/-- What a promotion adds has no element with the Laplace variable where it is forbidden, if the
named models that its text can use are free of it. -/
theorem Promotion.Adds.laplaceFree {p : Promotion} {path : String} {d : Definition}
    (h : p.Adds path d) (hunbound : p.defs.Unbound) (hfree : p.CardsFree) :
    ∀ e ∈ d.elements.values, e.LaplaceFree :=
  Forest.laplaceFree_of_errors_eq_zero hunbound (hfree.before.surroundings _ _) hfree.text
    h.errors_eq_zero.1 h.errors_eq_zero.2

/-- A promotion under which the Laplace variable is an error adds no named model that is not free of
it. -/
theorem Promotion.cardsFree_after {p : Promotion} {kind : LibraryKind}
    (h : (p.before.library kind).CardsFree)
    (hseverity : p.kind = kind → p.before.settings.laplaceSeverity = .error) :
    (p.after.library kind).CardsFree := by
  by_cases hkind : kind = p.kind
  · subst hkind
    rw [library_after]
    refine h.promote fun root hroot => ?_
    obtain ⟨hresolved, hzero⟩ := Library.errors_of_admissible hroot
    exact Forest.cardsFree_of_errors_eq_zero (s := p.surroundings) (hseverity rfl) hresolved hzero
  · rw [after, Stock.library_updateLibrary_of_ne hkind]
    exact h

namespace Stock

variable {s s' : Stock} {ps : List Promotion} {kind : LibraryKind}

/-- The named models of a library stay free of the Laplace variable while it is an error in every
promotion into the library. -/
theorem Grows.cardsFree (h : s.Grows ps s') (hs : (s.library kind).CardsFree)
    (hps : ∀ p ∈ ps, p.kind = kind → p.before.settings.laplaceSeverity = .error) :
    (s'.library kind).CardsFree := by
  have hcongr : ∀ {s s' : Stock}, s.SameEntries s' → (s.library kind).CardsFree →
      (s'.library kind).CardsFree := by
    intro s s' hsame hs
    obtain ⟨files, heq⟩ := hsame kind
    rw [heq]
    exact hs
  induction h with
  | same hsame => exact hcongr hsame hs
  | promote hsame _ ih =>
    obtain ⟨hfirst, hrest⟩ := List.forall_mem_cons.1 hps
    exact ih (Promotion.cardsFree_after (hcongr hsame hs) hfirst) hrest

/-- No element of a library has the Laplace variable where it is forbidden, if the named models that
library texts can use are free of it. -/
theorem MadeBy.laplaceFree (h : s.MadeBy ps) (hfree : ∀ p ∈ ps, p.CardsFree) {path : String}
    {d : Definition} (hd : (s.library kind).circuits[path]? = some d) :
    ∀ e ∈ d.elements.values, e.LaplaceFree := by
  obtain ⟨p, hp, -, hadds⟩ := h.origin kind path d hd
  exact hadds.laplaceFree (h.unbound p hp) (hfree p hp)

end Stock

/-- The named models of a library are free of the Laplace variable if it has been an error in every
promotion into the library. -/
theorem Workspace.History.cardsFree {w : Workspace} {ps : List Promotion} (h : w.History ps)
    (kind : LibraryKind)
    (hps : ∀ p ∈ ps, p.kind = kind → p.before.settings.laplaceSeverity = .error) :
    (w.stock.library kind).CardsFree := by
  have hcleared : ∀ w : Workspace, (w.cleared.stock.library kind).CardsFree := by
    intro w
    rw [library_cleared]
    exact Library.cardsFree_empty
  induction h with
  | new settings disk => exact (grows_rebuild _ disk).1.cardsFree (hcleared _) hps
  | @withBuiltin settings w ps _ ih =>
    cases kind with
    | user => exact Library.cardsFree_empty
    | builtin =>
      exact ih fun p hp hkind => hps p (List.mem_filter.2 ⟨hp, decide_eq_true hkind⟩) hkind
  | @operate w ps _ op ih =>
    obtain ⟨hbefore, hnew⟩ := List.forall_mem_append.1 hps
    exact (w.grows_run op).cardsFree (ih hbefore) hnew
  | @rebuild w _ _ disk _ => exact (w.grows_rebuild disk).1.cardsFree (hcleared w) hps

end FlatNet
