import FlatNet.Library.Basic

/-!
# Global parameters

The parameters of the libraries are global: they keep their names in every circuit.  A circuit
takes the definitions that it needs, and with a definition those that the definition needs.
-/

set_option autoImplicit false

namespace FlatNet

/-- The global parameters that a circuit can take definitions from. -/
structure Globals where
  user : Library
  builtin : Library

namespace Globals

/-- The definition of a global parameter; the user library comes first. -/
def value? (g : Globals) (name : String) : Option Expr :=
  (g.user.params[name]?).or g.builtin.params[name]?

/-- The name is a global parameter. -/
def contains (g : Globals) (name : String) : Bool := (g.value? name).isSome

/-- The names of all global parameters. -/
def names (g : Globals) : List String := g.user.params.keys ++ g.builtin.params.keys

/-- The number of global parameters not defined in a map; names in both libraries count twice. -/
def missing (g : Globals) (params : NameMap Expr) : Nat :=
  g.names.countP fun name => !params.contains name

/-- A global parameter with a value is among the names. -/
theorem mem_names {g : Globals} {name : String} {value : Expr} (h : g.value? name = some value) :
    name ∈ g.names := by
  simp only [value?, Option.or_eq_some_iff] at h
  simp only [names, List.mem_append, Std.ExtTreeMap.mem_keys]
  rcases h with h | ⟨-, h⟩
  · exact .inl (Std.ExtTreeMap.mem_iff_isSome_getElem?.2 (by simp [h]))
  · exact .inr (Std.ExtTreeMap.mem_iff_isSome_getElem?.2 (by simp [h]))

/-- Fewer entries have a property that implies another one, if one entry has only the other. -/
theorem countP_lt_of_imp {α : Type} {p q : α → Bool} {l : List α} {a : α}
    (himp : ∀ x, p x = true → q x = true) (ha : a ∈ l) (hp : p a = false) (hq : q a = true) :
    l.countP p < l.countP q := by
  induction l with
  | nil => simp at ha
  | cons b l ih =>
    have hle : l.countP p ≤ l.countP q := List.countP_mono_left fun x _ => himp x
    rcases List.mem_cons.1 ha with rfl | ha
    · rw [List.countP_cons, List.countP_cons, hp, hq]
      simp only [Bool.false_eq_true, if_false, if_true]
      omega
    · have := ih ha
      rw [List.countP_cons, List.countP_cons]
      by_cases hb : p b = true
      · simp only [hb, himp b hb, if_true]
        omega
      · have hzero : (if p b = true then 1 else 0) = 0 := if_neg hb
        omega

/-- Defining a missing global parameter leaves fewer of them missing. -/
theorem missing_insert_lt {g : Globals} {params : NameMap Expr} {name : String} {value : Expr}
    (hname : params.contains name = false) (hvalue : g.value? name = some value) (v : Expr) :
    g.missing (params.insert name v) < g.missing params := by
  refine countP_lt_of_imp (a := name) ?_ (mem_names hvalue) ?_ ?_
  · intro x hx
    simp only [Std.ExtTreeMap.contains_insert, Bool.not_or, Bool.and_eq_true] at hx
    exact hx.2
  · simp
  · simp [hname]

/-- Defines in `params` the global parameters among the names, and those that their definitions
use, and so on; what is defined already is kept and not followed. -/
def pull (g : Globals) (names : List String) (params : NameMap Expr) : NameMap Expr :=
  match names with
  | [] => params
  | name :: rest =>
    if _hname : params.contains name = true then pull g rest params
    else
      match _hvalue : g.value? name with
      | none => pull g rest params
      | some value => pull g (value.symbols.toList ++ rest) (params.insert name value)
termination_by (g.missing params, names.length)
decreasing_by
  · exact Prod.Lex.right _ (by simp)
  · exact Prod.Lex.right _ (by simp)
  · exact Prod.Lex.left _ _ (missing_insert_lt (Bool.eq_false_iff.2 _hname) _hvalue value)

end Globals

end FlatNet
