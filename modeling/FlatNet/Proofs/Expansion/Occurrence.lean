import FlatNet.Proofs.Instance.Copies

/-!
# Recursive expansion

The elements of a netlist and of the sub-circuits in it form a tree: below an instance stand the
copies of its sub-circuit's elements.  An `Occurrence` is a place in this tree.  `Expands` is the
plain recursive expansion, depth first: an occurrence bound to a primitive model is a leaf, and an
instance has the leaves of what is inside it.  No map, no queue and no limit takes part in it.

`Expands.unique` says that the leaves are determined, and `Expands.faithful` that every leaf is the
element of its definition under the name made of its own name and of those of the instances around
it.  `Setting.expanded` lists the instances of the tree level by level.
-/

set_option autoImplicit false

namespace FlatNet.Expansion

/-- A place in the tree of a netlist. -/
structure Occurrence where
  /-- The instances around the place, by the names in their definitions, from the inside out. -/
  around : List String
  /-- The element as its definition has it. -/
  inner : Element
  /-- The element as it stands in the flat circuit. -/
  outer : Element

/-- The names on the way from a place to the netlist, joined by underscores. -/
def flatName : List String → String
  | [] => ""
  | [name] => name
  | name :: rest => name ++ "_" ++ flatName rest

namespace Occurrence

/-- The names on the way from the place to the netlist, its own name first. -/
def path (o : Occurrence) : List String := o.inner.refDes :: o.around

/-- The place is an instance of a sub-circuit. -/
def isInstance (o : Occurrence) : Bool := o.outer.prototype?.isSome

/-- The place is bound to a primitive model. -/
def isLeaf (o : Occurrence) : Bool := o.outer.primitive?.isSome

/-- Apart from its names the element stands in the flat circuit as its definition has it. -/
structure Faithful (o : Occurrence) : Prop where
  refDes : o.outer.refDes = flatName o.path
  device : o.outer.device = o.inner.device
  modelName : o.outer.modelName = o.inner.modelName
  binding : o.outer.binding = o.inner.binding
  origin : o.outer.origin = o.inner.origin
  refs : o.outer.refs = o.inner.refs.map fun name => flatName (name :: o.around)
  params : ∀ name, name ∈ o.outer.params ↔ name ∈ o.inner.params

end Occurrence

namespace Setting

/-- The instance that an element is, if its sub-circuit is known. -/
def instance? (s : Setting) (e : Element) : Option Instance :=
  e.prototype?.bind fun key => (s.prototype? key).map fun proto => ⟨e, proto⟩

/-- The places inside an instance. -/
def inside (s : Setting) (o : Occurrence) : List Occurrence :=
  match s.instance? o.outer with
  | none => []
  | some i => (i.copies s.globals).map fun c => ⟨o.path, c.1, c.2⟩

/-- The parameters of a circuit with those that an instance needs. -/
def defineAt (s : Setting) (params : NameMap Expr) (o : Occurrence) : NameMap Expr :=
  match s.instance? o.outer with
  | none => params
  | some i => i.define s.globals params

/-- The instances that come to light by expanding a row of instances and, as often as given, all
that have come to light last. -/
def instancesFrom (s : Setting) : Nat → List Occurrence → List Occurrence
  | 0, _ => []
  | n + 1, level =>
    level ++ instancesFrom s n ((level.flatMap s.inside).filter Occurrence.isInstance)

end Setting

/-- The elements of a netlist as places. -/
def tops (root : Definition) : List Occurrence := root.elements.values.map fun e => ⟨[], e, e⟩

/-- The instances of a netlist, level by level. -/
def Setting.expanded (s : Setting) (root : Definition) : List Occurrence :=
  s.instancesFrom s.maxDepth ((tops root).filter Occurrence.isInstance)

/-- All places of a netlist, level by level. -/
def Setting.places (s : Setting) (root : Definition) : List Occurrence :=
  tops root ++ (s.expanded root).flatMap s.inside

/-- The leaves of a row of places. -/
inductive Expands (s : Setting) : List Occurrence → List Occurrence → Prop
  | nil : Expands s [] []
  | leaf {o : Occurrence} {rest leaves : List Occurrence} {p : Primitive}
      (hleaf : o.outer.primitive? = some p) (hrest : Expands s rest leaves) :
      Expands s (o :: rest) (o :: leaves)
  | inst {o : Occurrence} {rest below leaves : List Occurrence} {i : Instance}
      (hinst : s.instance? o.outer = some i) (hinside : Expands s (s.inside o) below)
      (hrest : Expands s rest leaves) : Expands s (o :: rest) (below ++ leaves)

/-! ## Instances and primitive models -/

/-- An element is bound to a primitive model or to a sub-circuit, not to both. -/
theorem prototype?_eq_none_of_primitive? {e : Element} {p : Primitive}
    (h : e.primitive? = some p) : e.prototype? = none := by
  unfold Element.primitive? at h
  unfold Element.prototype?
  split at h
  · rename_i hbinding
    rw [hbinding]
  · simp at h

/-- What an instance consists of. -/
theorem Setting.instance?_eq_some_iff {s : Setting} {e : Element} {i : Instance} :
    s.instance? e = some i ↔
      i.element = e ∧ ∃ key, e.prototype? = some key ∧ s.prototype? key = some i.proto := by
  unfold Setting.instance?
  constructor
  · intro h
    obtain ⟨key, hkey, h⟩ := Option.bind_eq_some_iff.1 h
    obtain ⟨proto, hproto, rfl⟩ := Option.map_eq_some_iff.1 h
    exact ⟨rfl, key, hkey, hproto⟩
  · rintro ⟨rfl, key, hkey, hproto⟩
    rw [hkey, Option.bind_some, hproto, Option.map_some]

/-- Inside an instance stand the copies of its sub-circuit's elements. -/
theorem Setting.inside_of_instance? {s : Setting} {o : Occurrence} {i : Instance}
    (h : s.instance? o.outer = some i) :
    s.inside o = (i.copies s.globals).map fun c => ⟨o.path, c.1, c.2⟩ := by
  unfold Setting.inside
  rw [h]

/-- What stands inside a place is a copy that its instance makes. -/
theorem Setting.exists_copy_of_mem_inside {s : Setting} {o c : Occurrence} (hc : c ∈ s.inside o) :
    ∃ i, s.instance? o.outer = some i ∧
      ∃ copy ∈ i.copies s.globals, c = ⟨o.path, copy.1, copy.2⟩ := by
  cases hinst : s.instance? o.outer with
  | none =>
    unfold Setting.inside at hc
    rw [hinst] at hc
    exact absurd hc List.not_mem_nil
  | some i =>
    rw [Setting.inside_of_instance? hinst] at hc
    obtain ⟨copy, hcopy, rfl⟩ := List.mem_map.1 hc
    exact ⟨i, rfl, copy, hcopy, rfl⟩

/-- A place with a known sub-circuit is an instance. -/
theorem Setting.isInstance_of_instance? {s : Setting} {o : Occurrence} {i : Instance}
    (h : s.instance? o.outer = some i) : o.isInstance = true := by
  obtain ⟨-, key, hkey, -⟩ := Setting.instance?_eq_some_iff.1 h
  unfold Occurrence.isInstance
  rw [hkey]
  rfl

/-- A place is an element of the netlist or a copy that one of its instances makes. -/
theorem Setting.mem_places_iff {s : Setting} {root : Definition} {o : Occurrence} :
    o ∈ s.places root ↔ (∃ e ∈ root.elements.values, o = ⟨[], e, e⟩) ∨
      ∃ around ∈ s.expanded root, ∃ i, s.instance? around.outer = some i ∧
        ∃ c ∈ i.copies s.globals, o = ⟨around.path, c.1, c.2⟩ := by
  unfold Setting.places tops
  rw [List.mem_append, List.mem_map, List.mem_flatMap]
  refine or_congr ?_ (exists_congr fun around => and_congr_right fun _ => ?_)
  · exact exists_congr fun e => and_congr_right fun _ => eq_comm
  · refine ⟨fun h => Setting.exists_copy_of_mem_inside h, ?_⟩
    rintro ⟨i, hinst, c, hc, rfl⟩
    rw [Setting.inside_of_instance? hinst]
    exact List.mem_map_of_mem hc

/-- Where no instances are expanded none come to light. -/
@[simp] theorem Setting.instancesFrom_nil (s : Setting) (n : Nat) : s.instancesFrom n [] = [] := by
  induction n with
  | zero => rfl
  | succ n ih =>
    rw [Setting.instancesFrom, List.flatMap_nil, List.filter_nil, ih]
    rfl

/-! ## Names -/

/-- The name at a place inside is continued by the names around it. -/
theorem flatName_cons {path : List String} (name : String) (h : path ≠ []) :
    flatName (name :: path) = name ++ "_" ++ flatName path := by
  cases path with
  | nil => exact absurd rfl h
  | cons _ _ => rfl

/-- A name inside a faithful instance gets the name of its place. -/
theorem Occurrence.Faithful.rename {o : Occurrence} (ho : o.Faithful) {i : Instance}
    (hi : i.element = o.outer) (name : String) : i.rename name = flatName (name :: o.path) := by
  have hpath : o.path ≠ [] := List.cons_ne_nil _ _
  rw [flatName_cons _ hpath, Instance.rename, hi, ho.refDes]

/-- What stands inside a faithful place is faithful. -/
theorem Occurrence.Faithful.inside {s : Setting} {o c : Occurrence} (ho : o.Faithful)
    (hc : c ∈ s.inside o) : c.Faithful := by
  unfold Setting.inside at hc
  split at hc
  · simp at hc
  · rename_i i hi
    obtain ⟨hi, -⟩ := Setting.instance?_eq_some_iff.1 hi
    obtain ⟨⟨inner, copied⟩, hmem, rfl⟩ := List.mem_map.1 hc
    obtain ⟨-, m, hcopied⟩ := Instance.exists_eq_copy_of_mem_copies hmem
    change copied = (i.copy s.globals m inner).1 at hcopied
    subst hcopied
    refine ⟨ho.rename hi inner.refDes, rfl, rfl, rfl, rfl, ?_, fun _ => Instance.mem_outsideAll⟩
    exact List.map_congr_left fun name _ => ho.rename hi name

/-- The elements of the netlist stand in the circuit as they are. -/
theorem faithful_of_mem_tops {root : Definition} {o : Occurrence} (h : o ∈ tops root) :
    o.Faithful := by
  obtain ⟨e, -, rfl⟩ := List.mem_map.1 h
  exact ⟨rfl, rfl, rfl, rfl, rfl, (List.map_id e.refs).symm, fun _ => Iff.rfl⟩

/-- What holds of the instances at the beginning, and inside every instance that it holds of, holds
of all instances that come to light. -/
theorem Setting.forall_mem_instancesFrom {s : Setting} {P : Occurrence → Prop} {n : Nat}
    {level : List Occurrence} (hlevel : ∀ o ∈ level, P o)
    (hinside : ∀ o ∈ s.instancesFrom n level, P o →
      ∀ c ∈ s.inside o, c.isInstance = true → P c) : ∀ o ∈ s.instancesFrom n level, P o := by
  induction n generalizing level with
  | zero => exact fun o ho => absurd ho List.not_mem_nil
  | succ n ih =>
    rw [Setting.instancesFrom] at hinside ⊢
    obtain ⟨hfirst, hrest⟩ := List.forall_mem_append.1 hinside
    refine List.forall_mem_append.2 ⟨hlevel, ih (fun c hc => ?_) hrest⟩
    obtain ⟨hmem, hinstance⟩ := List.mem_filter.1 hc
    obtain ⟨parent, hparent, hmem⟩ := List.mem_flatMap.1 hmem
    exact hfirst parent hparent (hlevel parent hparent) c hmem hinstance

/-- Every instance that comes to light stands in the circuit as its definition has it. -/
theorem Setting.faithful_of_mem_expanded {s : Setting} {root : Definition} {o : Occurrence}
    (h : o ∈ s.expanded root) : o.Faithful :=
  Setting.forall_mem_instancesFrom
    (fun _ ho => faithful_of_mem_tops (List.mem_of_mem_filter ho))
    (fun _ _ ho _ hc _ => ho.inside hc) o h

/-! ## The leaves -/

namespace Expands

variable {s : Setting}

/-- The leaves of two rows of places are those of the first and those of the second. -/
theorem append {os os' leaves leaves' : List Occurrence} (h : Expands s os leaves)
    (h' : Expands s os' leaves') : Expands s (os ++ os') (leaves ++ leaves') := by
  induction h with
  | nil => exact h'
  | leaf hleaf _ ih => exact .leaf hleaf ih
  | inst hinst hinside _ _ ih =>
    rw [List.append_assoc]
    exact .inst hinst hinside ih

/-- A row has the leaves that its places have each on its own. -/
theorem flatMap {os : List Occurrence} {parts : Occurrence → List Occurrence}
    (h : ∀ o ∈ os, Expands s [o] (parts o)) : Expands s os (os.flatMap parts) := by
  induction os with
  | nil => exact .nil
  | cons o rest ih =>
    rw [List.flatMap_cons]
    exact append (h o List.mem_cons_self) (ih fun c hc => h c (List.mem_cons_of_mem o hc))

/-- The leaves of an instance are those of the places inside it. -/
theorem single {o : Occurrence} {i : Instance} {below : List Occurrence}
    (hinst : s.instance? o.outer = some i) (hinside : Expands s (s.inside o) below) :
    Expands s [o] below := by
  have h := Expands.inst hinst hinside .nil
  rwa [List.append_nil] at h

/-- A row has one row of leaves. -/
theorem unique {os leaves leaves' : List Occurrence} (h : Expands s os leaves)
    (h' : Expands s os leaves') : leaves = leaves' := by
  induction h generalizing leaves' with
  | nil =>
    cases h'
    rfl
  | leaf hleaf _ ih =>
    cases h' with
    | leaf _ hrest => rw [ih hrest]
    | inst hinst _ _ =>
      obtain ⟨-, key, hkey, -⟩ := Setting.instance?_eq_some_iff.1 hinst
      rw [prototype?_eq_none_of_primitive? hleaf] at hkey
      exact absurd hkey (by simp)
  | inst hinst _ _ ihinside ih =>
    cases h' with
    | leaf hleaf _ =>
      obtain ⟨-, key, hkey, -⟩ := Setting.instance?_eq_some_iff.1 hinst
      rw [prototype?_eq_none_of_primitive? hleaf] at hkey
      exact absurd hkey (by simp)
    | inst _ hinside hrest => rw [ihinside hinside, ih hrest]

/-- What holds of a row, and inside every place that it holds of, holds of the leaves. -/
theorem forall_mem {P : Occurrence → Prop} {os leaves : List Occurrence} (h : Expands s os leaves)
    (hos : ∀ o ∈ os, P o) (hinside : ∀ o, P o → ∀ c ∈ s.inside o, P c) : ∀ l ∈ leaves, P l := by
  induction h with
  | nil => exact hos
  | leaf _ _ ih =>
    obtain ⟨hfirst, hrest⟩ := List.forall_mem_cons.1 hos
    exact List.forall_mem_cons.2 ⟨hfirst, ih hrest⟩
  | inst _ _ _ ihinside ih =>
    obtain ⟨hfirst, hrest⟩ := List.forall_mem_cons.1 hos
    exact List.forall_mem_append.2 ⟨ihinside (hinside _ hfirst), ih hrest⟩

/-- The leaves of faithful places are faithful. -/
theorem faithful {os leaves : List Occurrence} (h : Expands s os leaves)
    (hos : ∀ o ∈ os, o.Faithful) : ∀ o ∈ leaves, o.Faithful :=
  h.forall_mem hos fun _ ho _ hc => ho.inside hc

/-- Leaves are bound to primitive models. -/
theorem isLeaf {os leaves : List Occurrence} (h : Expands s os leaves) :
    ∀ o ∈ leaves, o.isLeaf = true := by
  induction h with
  | nil => simp
  | @leaf o _ _ p hleaf _ ih =>
    intro c hc
    rcases List.mem_cons.1 hc with rfl | hc
    · rw [Occurrence.isLeaf, hleaf]
      rfl
    · exact ih c hc
  | inst _ _ _ ihinside ih =>
    intro c hc
    exact (List.mem_append.1 hc).elim (ihinside c) (ih c)

end Expands

end FlatNet.Expansion
