import FlatNet.Circuit.Globals
import FlatNet.Proofs.NameMap
import Mathlib.Logic.Relation

/-!
# Pulling global parameters

Pulling keeps what is defined, adds global parameters only, each with its own definition, and leaves
no global parameter undefined that is asked for or used in what has been added.  What is added is
what is reached from the names asked for through definitions of global parameters
(`contains_pull_iff`).
-/

set_option autoImplicit false

namespace FlatNet.Globals

variable {g : Globals} {names : List String} {params : NameMap Expr} {name : String} {value : Expr}

/-- What is defined stays. -/
theorem getElem?_pull_of_getElem? (h : params[name]? = some value) :
    (g.pull names params)[name]? = some value := by
  fun_induction g.pull names params with
  | case1 params => exact h
  | case2 params first rest hfirst ih => exact ih h
  | case3 params first rest hfirst hnone ih => exact ih h
  | case4 params first rest hfirst v hv ih =>
    refine ih ?_
    rw [Std.ExtTreeMap.getElem?_insert, if_neg, h]
    intro heq
    rw [Std.LawfulEqCmp.compare_eq_iff_eq.1 heq] at hfirst
    exact hfirst (NameMap.contains_iff.2 ⟨value, h⟩)

/-- What is added is a global parameter with its definition. -/
theorem getElem?_pull (h : (g.pull names params)[name]? = some value) :
    params[name]? = some value ∨ params[name]? = none ∧ g.value? name = some value := by
  fun_induction g.pull names params with
  | case1 params => exact .inl h
  | case2 params first rest hfirst ih => exact ih h
  | case3 params first rest hfirst hnone ih => exact ih h
  | case4 params first rest hfirst v hv ih =>
    rcases ih h with h | ⟨hnone, h⟩
    · rcases NameMap.getElem?_of_insert h with ⟨rfl, rfl⟩ | hold
      · exact .inr ⟨NameMap.contains_eq_false_iff.1 (Bool.eq_false_iff.2 hfirst), hv⟩
      · exact .inl hold
    · rw [Std.ExtTreeMap.getElem?_insert] at hnone
      split at hnone
      · exact absurd hnone (by simp)
      · exact .inr ⟨hnone, h⟩

/-- Pulling global parameters keeps those that are there. -/
theorem contains_pull_of_contains (h : params.contains name = true) :
    (g.pull names params).contains name = true := by
  obtain ⟨v, hv⟩ := NameMap.contains_iff.1 h
  exact NameMap.contains_iff.2 ⟨v, getElem?_pull_of_getElem? hv⟩

/-- A name that pulling defines is a global parameter. -/
theorem contains_of_contains_pull (h : (g.pull names params).contains name = true)
    (hnew : params.contains name = false) : g.contains name = true := by
  obtain ⟨v, hv⟩ := NameMap.contains_iff.1 h
  rcases getElem?_pull hv with hv | ⟨-, hv⟩
  · rw [NameMap.contains_eq_false_iff.1 hnew] at hv
    exact absurd hv (by simp)
  · rw [contains, hv]
    rfl

/-- A name that is not there is not there behind the insertion of another one. -/
theorem contains_insert_eq_false {first : String} {v : Expr} (h : params.contains name = false)
    (hne : name ≠ first) : (params.insert first v).contains name = false := by
  rw [Std.ExtTreeMap.contains_insert, h, Bool.or_false]
  exact beq_eq_false_iff_ne.2 fun heq => hne (Std.LawfulEqCmp.compare_eq_iff_eq.1 heq).symm

/-- What is added has been asked for or is used in something else that is added. -/
theorem mem_names_or_used_of_pull (h : (g.pull names params).contains name = true)
    (hnew : params.contains name = false) :
    name ∈ names ∨ ∃ k v, params.contains k = false ∧ (g.pull names params)[k]? = some v ∧
      name ∈ v.symbols := by
  fun_induction g.pull names params with
  | case1 params =>
    rw [hnew] at h
    exact absurd h (by simp)
  | case2 params first rest hfirst ih =>
    exact (ih h hnew).imp_left fun hmem => List.mem_cons_of_mem first hmem
  | case3 params first rest hfirst hnone ih =>
    exact (ih h hnew).imp_left fun hmem => List.mem_cons_of_mem first hmem
  | case4 params first rest hfirst v hv ih =>
    have hfirst := Bool.eq_false_iff.2 hfirst
    by_cases hname : name = first
    · exact .inl (List.mem_cons.2 (.inl hname))
    · rcases ih h (contains_insert_eq_false hnew hname) with hmem | ⟨k, u, hk, hu, hused⟩
      · rcases List.mem_append.1 hmem with hmem | hmem
        · refine .inr ⟨first, v, hfirst, ?_, Std.ExtTreeSet.mem_toList.1 hmem⟩
          exact getElem?_pull_of_getElem? Std.ExtTreeMap.getElem?_insert_self
        · exact .inl (List.mem_cons_of_mem first hmem)
      · rw [Std.ExtTreeMap.contains_insert, Bool.or_eq_false_iff] at hk
        exact .inr ⟨k, u, hk.2, hu, hused⟩

/-- A global parameter that is asked for is defined. -/
theorem contains_pull_of_mem (h : name ∈ names) (hglobal : g.contains name = true) :
    (g.pull names params).contains name = true := by
  fun_induction g.pull names params with
  | case1 params => exact absurd h List.not_mem_nil
  | case2 params first rest hfirst ih =>
    rcases List.mem_cons.1 h with rfl | h
    · exact contains_pull_of_contains hfirst
    · exact ih h
  | case3 params first rest hfirst hnone ih =>
    rcases List.mem_cons.1 h with rfl | h
    · rw [contains, hnone] at hglobal
      exact absurd hglobal (by simp)
    · exact ih h
  | case4 params first rest hfirst v hv ih =>
    rcases List.mem_cons.1 h with rfl | h
    · exact contains_pull_of_contains (by simp)
    · exact ih (List.mem_append_right _ h)

/-- A global parameter that is used in something added is defined. -/
theorem contains_pull_of_used {k : String} (hnew : params.contains k = false)
    (hk : (g.pull names params)[k]? = some value) (hname : name ∈ value.symbols)
    (hglobal : g.contains name = true) : (g.pull names params).contains name = true := by
  fun_induction g.pull names params with
  | case1 params =>
    rw [NameMap.contains_eq_false_iff.1 hnew] at hk
    exact absurd hk (by simp)
  | case2 params first rest hfirst ih => exact ih hnew hk
  | case3 params first rest hfirst hnone ih => exact ih hnew hk
  | case4 params first rest hfirst v hv ih =>
    by_cases hsame : k = first
    · subst hsame
      rw [getElem?_pull_of_getElem? Std.ExtTreeMap.getElem?_insert_self] at hk
      rw [← Option.some.inj hk] at hname
      refine contains_pull_of_mem (List.mem_append_left _ ?_) hglobal
      exact Std.ExtTreeSet.mem_toList.2 hname
    · exact ih (contains_insert_eq_false hnew hsame) hk

/-! ## What is reached -/

/-- One name leads to another if it is a global parameter without a definition in the map, and the
other one occurs in its definition. -/
def Leads (g : Globals) (params : NameMap Expr) (name used : String) : Prop :=
  params.contains name = false ∧ ∃ value, g.value? name = some value ∧ used ∈ value.symbols

/-- With more names defined, fewer names lead to others. -/
theorem Leads.of_insert {first used : String} {v : Expr}
    (h : g.Leads (params.insert first v) name used) : g.Leads params name used := by
  refine ⟨?_, h.2⟩
  have hname := h.1
  rw [Std.ExtTreeMap.contains_insert, Bool.or_eq_false_iff] at hname
  exact hname.2

/-- What is added is reached from a name that has been asked for. -/
theorem exists_reaches_of_pull (h : (g.pull names params).contains name = true)
    (hnew : params.contains name = false) :
    ∃ asked ∈ names, Relation.ReflTransGen (g.Leads params) asked name := by
  fun_induction g.pull names params with
  | case1 params =>
    rw [hnew] at h
    exact absurd h (by simp)
  | case2 params first rest hfirst ih =>
    obtain ⟨asked, hasked, hreaches⟩ := ih h hnew
    exact ⟨asked, List.mem_cons_of_mem first hasked, hreaches⟩
  | case3 params first rest hfirst hnone ih =>
    obtain ⟨asked, hasked, hreaches⟩ := ih h hnew
    exact ⟨asked, List.mem_cons_of_mem first hasked, hreaches⟩
  | case4 params first rest hfirst v hv ih =>
    have hfirst := Bool.eq_false_iff.2 hfirst
    by_cases hname : name = first
    · exact ⟨first, List.mem_cons_self, hname ▸ .refl⟩
    · obtain ⟨asked, hasked, hreaches⟩ := ih h (contains_insert_eq_false hnew hname)
      have hreaches := Relation.ReflTransGen.mono (fun _ _ => Leads.of_insert) _ _ hreaches
      rcases List.mem_append.1 hasked with hasked | hasked
      · have hleads : g.Leads params first asked :=
          ⟨hfirst, v, hv, Std.ExtTreeSet.mem_toList.1 hasked⟩
        exact ⟨first, List.mem_cons_self, hreaches.head hleads⟩
      · exact ⟨asked, List.mem_cons_of_mem first hasked, hreaches⟩

/-- A global parameter that is reached from a name that is asked for is defined. -/
theorem contains_pull_of_reaches {asked : String} (hasked : asked ∈ names)
    (h : Relation.ReflTransGen (g.Leads params) asked name) (hglobal : g.contains name = true) :
    (g.pull names params).contains name = true := by
  induction h with
  | refl => exact contains_pull_of_mem hasked hglobal
  | @tail between name _ hleads ih =>
    obtain ⟨hnew, v, hv, hused⟩ := hleads
    have hbetween : g.contains between = true := by
      rw [contains, hv]
      rfl
    obtain ⟨u, hu⟩ := NameMap.contains_iff.1 (ih hbetween)
    have hsame : u = v := by
      rcases getElem?_pull hu with hold | ⟨-, hglobal⟩
      · rw [NameMap.contains_eq_false_iff.1 hnew] at hold
        exact absurd hold (by simp)
      · exact Option.some.inj (hglobal.symm.trans hv)
    exact contains_pull_of_used hnew (hsame ▸ hu) hused hglobal

/-- Pulling adds the global parameters that are reached from the names asked for. -/
theorem contains_pull_iff (hnew : params.contains name = false) :
    (g.pull names params).contains name = true ↔ g.contains name = true ∧
      ∃ asked ∈ names, Relation.ReflTransGen (g.Leads params) asked name := by
  constructor
  · exact fun h => ⟨contains_of_contains_pull h hnew, exists_reaches_of_pull h hnew⟩
  · rintro ⟨hglobal, asked, hasked, h⟩
    exact contains_pull_of_reaches hasked h hglobal

end FlatNet.Globals
