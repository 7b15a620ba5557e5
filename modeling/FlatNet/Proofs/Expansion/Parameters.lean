import FlatNet.Proofs.Expansion.Occurrence
import FlatNet.Proofs.Globals
import FlatNet.Proofs.Instance.Definitions

/-!
# Parameters of a flat circuit

Expansion enters the definitions of one instance after the other, and a name that is taken keeps
its meaning, whoever has given it.  `adds_of_getElem?_foldl_defineAt` traces a definition back to
where it comes from.
-/

set_option autoImplicit false

namespace FlatNet.Expansion.Setting

/-- Why instances define a name as a value: it is a definition of one of them, or a global
parameter that one of them has met, or one that a definition uses in the end. -/
inductive Adds (s : Setting) (os : List Occurrence) (final : NameMap Expr) (name : String)
    (value : Expr) : Prop
  | own {o : Occurrence} {i : Instance} (ho : o ∈ os) (hinst : s.instance? o.outer = some i)
      (hmem : (name, value) ∈ i.definitions s.globals)
  | met {o : Occurrence} {i : Instance} (ho : o ∈ os) (hinst : s.instance? o.outer = some i)
      (hglobal : s.globals.value? name = some value) (hmet : name ∈ i.met s.globals)
  | used {k : String} {v : Expr} (hglobal : s.globals.value? name = some value)
      (hk : final[k]? = some v) (hname : name ∈ v.symbols)

variable {s : Setting} {params : NameMap Expr} {os : List Occurrence} {o : Occurrence}
  {i : Instance} {name : String} {value : Expr}

/-- An instance enters its definitions and pulls the global parameters it has met. -/
theorem defineAt_eq (hinst : s.instance? o.outer = some i) (params : NameMap Expr) :
    s.defineAt params o = s.globals.pull (i.met s.globals)
      ((i.definitions s.globals).foldl (fun params d => params.insertIfNew d.1 d.2) params) := by
  unfold defineAt
  rw [hinst]
  exact i.define_eq s.globals params

/-- A place that is no instance defines no parameters. -/
theorem defineAt_of_instance?_eq_none (hinst : s.instance? o.outer = none)
    (params : NameMap Expr) : s.defineAt params o = params := by
  unfold defineAt
  rw [hinst]

/-- An instance keeps the definitions that are there. -/
theorem getElem?_defineAt_of_getElem? (h : params[name]? = some value) :
    (s.defineAt params o)[name]? = some value := by
  cases hinst : s.instance? o.outer with
  | none =>
    rw [defineAt_of_instance?_eq_none hinst]
    exact h
  | some i =>
    rw [defineAt_eq hinst]
    exact Globals.getElem?_pull_of_getElem? (NameMap.getElem?_foldl_insertIfNew_of_getElem? h)

/-- A parameter that is there keeps its value when further ones are defined. -/
theorem getElem?_foldl_defineAt_of_getElem? (h : params[name]? = some value) :
    (os.foldl s.defineAt params)[name]? = some value := by
  induction os generalizing params with
  | nil => exact h
  | cons o rest ih => exact ih (getElem?_defineAt_of_getElem? h)

/-- A definition of an instance counts unless its name is taken. -/
theorem getElem?_defineAt_of_mem (hinst : s.instance? o.outer = some i) {d : String × Expr}
    (hd : d ∈ i.definitions s.globals) :
    (s.defineAt params o)[d.1]? = some ((params[d.1]?).getD d.2) := by
  rw [defineAt_eq hinst]
  exact Globals.getElem?_pull_of_getElem?
    (NameMap.getElem?_foldl_insertIfNew_of_mem (i.nodup_definitions s.globals) hd)

/-- A global parameter that an instance has met is defined by it. -/
theorem contains_defineAt_of_met (hinst : s.instance? o.outer = some i)
    (hmet : name ∈ i.met s.globals) (hglobal : s.globals.contains name = true) :
    (s.defineAt params o).contains name = true := by
  rw [defineAt_eq hinst]
  exact Globals.contains_pull_of_mem hmet hglobal

/-- What one of several instances defines is defined in the end. -/
theorem contains_foldl_defineAt_of_forall (ho : o ∈ os)
    (h : ∀ params : NameMap Expr, (s.defineAt params o).contains name = true) :
    (os.foldl s.defineAt params).contains name = true := by
  obtain ⟨before, after, rfl⟩ := List.append_of_mem ho
  rw [List.foldl_append, List.foldl_cons]
  obtain ⟨v, hv⟩ := NameMap.contains_iff.1 (h (before.foldl s.defineAt params))
  exact NameMap.contains_iff.2 ⟨v, getElem?_foldl_defineAt_of_getElem? hv⟩

/-- What an instance defines it has a reason for. -/
theorem adds_of_getElem?_defineAt (h : (s.defineAt params o)[name]? = some value)
    (hnew : params[name]? = none) : Adds s [o] (s.defineAt params o) name value := by
  cases hinst : s.instance? o.outer with
  | none =>
    rw [defineAt_of_instance?_eq_none hinst, hnew] at h
    exact absurd h (by simp)
  | some i =>
    rw [defineAt_eq hinst] at h ⊢
    rcases Globals.getElem?_pull h with hown | ⟨hnone, hglobal⟩
    · rcases NameMap.getElem?_foldl_insertIfNew hown with hold | hmem
      · rw [hnew] at hold
        exact absurd hold (by simp)
      · exact .own List.mem_cons_self hinst hmem
    · rcases Globals.mem_names_or_used_of_pull (NameMap.contains_iff.2 ⟨value, h⟩)
        (NameMap.contains_eq_false_iff.2 hnone) with hmet | ⟨k, v, -, hk, hname⟩
      · exact .met List.mem_cons_self hinst hglobal hmet
      · exact .used hglobal hk hname

/-- What is added by some places is added by more of them. -/
theorem Adds.mono {os' : List Occurrence} {final final' : NameMap Expr}
    (h : Adds s os final name value) (hos : os ⊆ os')
    (hfinal : ∀ (k : String) (v : Expr), final[k]? = some v → final'[k]? = some v) :
    Adds s os' final' name value := by
  cases h with
  | own ho hinst hmem => exact .own (hos ho) hinst hmem
  | met ho hinst hglobal hmet => exact .met (hos ho) hinst hglobal hmet
  | used hglobal hk hname => exact .used hglobal (hfinal _ _ hk) hname

/-- What instances define they have a reason for. -/
theorem adds_of_getElem?_foldl_defineAt (h : (os.foldl s.defineAt params)[name]? = some value)
    (hnew : params[name]? = none) : Adds s os (os.foldl s.defineAt params) name value := by
  induction os generalizing params with
  | nil =>
    rw [List.foldl_nil, hnew] at h
    exact absurd h (by simp)
  | cons o rest ih =>
    rw [List.foldl_cons] at h ⊢
    cases hfirst : (s.defineAt params o)[name]? with
    | none => exact (ih h hfirst).mono (List.subset_cons_self o rest) fun _ _ hk => hk
    | some v =>
      -- the first instance has defined the name, and the others keep what it says
      have hsame := h
      rw [getElem?_foldl_defineAt_of_getElem? hfirst] at hsame
      rw [Option.some.inj hsame] at hfirst
      refine (adds_of_getElem?_defineAt hfirst hnew).mono ?_ fun k u hk => ?_
      · exact List.cons_subset_cons o (List.nil_subset rest)
      · exact getElem?_foldl_defineAt_of_getElem? hk

end FlatNet.Expansion.Setting
