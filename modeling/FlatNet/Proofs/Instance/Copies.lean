import FlatNet.Circuit.Expansion
import FlatNet.Proofs.NameMap

/-!
# The copies that an instance makes

An instance copies the elements of its sub-circuit one after another, and what it has learnt about
symbols is handed on from copy to copy.  `Instance.copies` lists the copies, each with the element
that it was made from; `Instance.define` adds the parameters that they need.  A copy keeps
everything of its element but the names, and the names of its parameters are those of the element.

Copies are put into the circuit in turn.  `Expansion.Joins` lists what can come of one of them, and
`Expansion.addCopies_keeps` carries what each of them keeps over a row of copies.
-/

set_option autoImplicit false

namespace FlatNet

namespace Instance

/-- The copies of several elements, with what is known of symbols behind the last one. -/
def copyAll (i : Instance) (g : Globals) (m : Memo) :
    List Element → List (Element × Element) × Memo
  | [] => ([], m)
  | e :: rest =>
    let (copied, m) := i.copy g m e
    let (copies, m) := copyAll i g m rest
    ((e, copied) :: copies, m)

/-- The elements of the sub-circuit, each with its copy. -/
def copies (i : Instance) (g : Globals) : List (Element × Element) :=
  (i.copyAll g .empty i.proto.elements.values).1

/-- What is known of symbols when all elements have been copied. -/
def memo (i : Instance) (g : Globals) : Memo :=
  (i.copyAll g .empty i.proto.elements.values).2

/-- The parameters of a circuit with those that the copies need. -/
def define (i : Instance) (g : Globals) (params : NameMap Expr) : NameMap Expr :=
  i.addParams g params (i.memo g)

section Copy

variable (i : Instance) (g : Globals) (m : Memo) (e : Element)

/-- A copy stands at the nodes that those of the element become. -/
@[simp] theorem nodes_copy : (i.copy g m e).1.nodes = e.nodes.map i.node := rfl

/-- A copy refers to the elements by their new names. -/
@[simp] theorem refs_copy : (i.copy g m e).1.refs = e.refs.map i.rename := rfl

end Copy

/-- A row of translated parameters has the names it started with and those that were added. -/
theorem mem_foldl_outside (i : Instance) (g : Globals) (entries : List (String × Expr))
    (done : NameMap Expr) (m : Memo) (name : String) :
    name ∈ (entries.foldl
        (fun (state : NameMap Expr × Memo) (entry : String × Expr) =>
          let (value, m) := i.outside g state.2 entry.2
          (state.1.insert entry.1 value, m))
        (done, m)).1 ↔ name ∈ done ∨ name ∈ entries.map Prod.fst := by
  induction entries generalizing done m with
  | nil => simp
  | cons entry rest ih =>
    rw [List.foldl_cons, ih, Std.ExtTreeMap.mem_insert, List.map_cons, List.mem_cons]
    simp only [Std.LawfulEqCmp.compare_eq_iff_eq]
    constructor
    · rintro ((h | h) | h)
      · exact .inr (.inl h.symm)
      · exact .inl h
      · exact .inr (.inr h)
    · rintro (h | h | h)
      · exact .inl (.inr h)
      · exact .inl (.inl h.symm)
      · exact .inr h

/-- Translated parameters have the names of the parameters inside. -/
theorem mem_outsideAll {i : Instance} {g : Globals} {m : Memo} {params : NameMap Expr}
    {name : String} : name ∈ (i.outsideAll g m params).1 ↔ name ∈ params := by
  have h := mem_foldl_outside i g params.toList ∅ m name
  rw [Std.ExtTreeMap.map_fst_toList_eq_keys, Std.ExtTreeMap.mem_keys] at h
  exact h.trans (by simp)

/-- Every copied element is listed, in order. -/
theorem map_fst_copyAll (i : Instance) (g : Globals) (m : Memo) (es : List Element) :
    (i.copyAll g m es).1.map Prod.fst = es := by
  induction es generalizing m with
  | nil => rfl
  | cons e rest ih =>
    show e :: (i.copyAll g (i.copy g m e).2 rest).1.map Prod.fst = e :: rest
    rw [ih]

/-- What is listed as a copy is one. -/
theorem exists_eq_copy_of_mem_copyAll {i : Instance} {g : Globals} {m : Memo}
    {es : List Element} {c : Element × Element} (h : c ∈ (i.copyAll g m es).1) :
    c.1 ∈ es ∧ ∃ before, c.2 = (i.copy g before c.1).1 := by
  induction es generalizing m with
  | nil => simp [copyAll] at h
  | cons e rest ih =>
    change c ∈ (e, (i.copy g m e).1) :: (i.copyAll g (i.copy g m e).2 rest).1 at h
    rcases List.mem_cons.1 h with rfl | h
    · exact ⟨List.mem_cons_self, m, rfl⟩
    · obtain ⟨hmem, hcopy⟩ := ih h
      exact ⟨List.mem_cons_of_mem e hmem, hcopy⟩

/-- Each copy is made from an element of the sub-circuit, with what is known of symbols at that
time. -/
theorem exists_eq_copy_of_mem_copies {i : Instance} {g : Globals} {c : Element × Element}
    (h : c ∈ i.copies g) :
    c.1 ∈ i.proto.elements.values ∧ ∃ before, c.2 = (i.copy g before c.1).1 :=
  exists_eq_copy_of_mem_copyAll h

end Instance

namespace Expansion

/-- What can come of a copy that is to be put into the circuit: it is bound to nothing, its name is
taken, or it is put in. -/
inductive Joins (i : Instance) (inner copied : Element) (p : Progress) : Progress → Prop
  | unbound {model : String} (hbinding : copied.binding = .unresolved model) :
      Joins i inner copied p
        (p.report (.usual (.unknownModel copied.refDes model) (some inner.origin)))
  | taken (hbound : copied.isUnresolved = false) (htaken : copied.refDes ∈ p.circuit.elements) :
      Joins i inner copied p
        (p.report (.usual (.nameCollision copied.refDes) (some i.element.origin)))
  | inserted (hbound : copied.isUnresolved = false)
      (hfree : p.circuit.elements[copied.refDes]? = none) :
      Joins i inner copied p (p.insert copied)

/-- What comes of a copy that is to be put in is one of these. -/
theorem joins_addCopy (i : Instance) (inner copied : Element) (p : Progress) :
    Joins i inner copied p (addCopy i inner copied p) := by
  unfold addCopy
  split
  · rename_i model hbinding
    exact .unbound hbinding
  · rename_i hnot
    have hbound : copied.isUnresolved = false := by
      unfold Element.isUnresolved
      split
      · rename_i model hbinding
        exact absurd hbinding (hnot model)
      · rfl
    split
    · rename_i htaken
      exact .taken hbound (Std.ExtTreeMap.contains_iff_mem.1 htaken)
    · rename_i hfree
      rw [Std.ExtTreeMap.contains_iff_mem] at hfree
      exact .inserted hbound (Std.ExtTreeMap.getElem?_eq_none hfree)

/-- Puts the copies that an instance makes into the circuit. -/
def addCopies (i : Instance) (copies : List (Element × Element)) (p : Progress) : Progress :=
  copies.foldl (fun p c => addCopy i c.1 c.2 p) p

/-- What each of the copies keeps is kept by the row of them. -/
theorem addCopies_keeps {Q : Progress → Prop} {i : Instance} {cs : List (Element × Element)}
    (hkeeps : ∀ c ∈ cs, ∀ p q, Joins i c.1 c.2 p q → Q p → Q q) {p : Progress} (h : Q p) :
    Q (addCopies i cs p) := by
  induction cs generalizing p with
  | nil => exact h
  | cons c rest ih =>
    obtain ⟨hc, hrest⟩ := List.forall_mem_cons.1 hkeeps
    exact ih hrest (hc p (addCopy i c.1 c.2 p) (joins_addCopy i c.1 c.2 p) h)

/-- What any copy leaves alone is left alone by a row of copies. -/
theorem addCopies_invariant {β : Type} (measure : Progress → β) {i : Instance}
    (hsame : ∀ inner copied p q, Joins i inner copied p q → measure q = measure p)
    (cs : List (Element × Element)) (p : Progress) :
    measure (addCopies i cs p) = measure p :=
  addCopies_keeps (Q := fun q => measure q = measure p)
    (fun c _ _ _ hjoins hq => (hsame c.1 c.2 _ _ hjoins).trans hq) rfl

/-- Copying and inserting elements in turn is copying all of them and inserting the copies. -/
theorem foldl_expandElement (g : Globals) (i : Instance) (es : List Element) (p : Progress)
    (m : Instance.Memo) :
    es.foldl (expandElement g i) (p, m) =
      (addCopies i (i.copyAll g m es).1 p, (i.copyAll g m es).2) := by
  induction es generalizing p m with
  | nil => rfl
  | cons e rest ih =>
    rw [List.foldl_cons]
    show rest.foldl (expandElement g i)
      (addCopy i e (i.copy g m e).1 p, (i.copy g m e).2) = _
    rw [ih]
    rfl

/-- Copies do not change the parameters of the circuit. -/
theorem params_addCopies (i : Instance) (cs : List (Element × Element)) (p : Progress) :
    (addCopies i cs p).circuit.params = p.circuit.params := by
  refine addCopies_invariant (fun q => q.circuit.params) (fun inner copied p q hjoins => ?_) cs p
  cases hjoins with
  | unbound _ | taken _ _ | inserted _ _ => rfl

/-- An instance is replaced by inserting its copies and defining the parameters they need. -/
theorem expandInstance_eq (g : Globals) (i : Instance) (p : Progress) :
    expandInstance g i p =
      let q := addCopies i (i.copies g) p
      { q with circuit := { q.circuit with params := i.define g p.circuit.params } } := by
  unfold expandInstance
  rw [foldl_expandElement]
  show (_ : Progress) = _
  simp only [Instance.define, Instance.copies, Instance.memo, params_addCopies]

end Expansion

end FlatNet
