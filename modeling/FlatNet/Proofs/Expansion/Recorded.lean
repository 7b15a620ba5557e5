import FlatNet.Proofs.Expansion.Leaves
import FlatNet.Proofs.Expansion.Run

/-!
# Recorded expansion

A recorded run notes every instance together with the sub-circuit that it is expanded against; but
for the notes it is the run itself.  Every instance noted stems from an element of a definition that
the netlist uses: it asks for the same sub-circuit, with as many nodes and the same parameters.  If
nothing is found wrong, every element of such a definition that is an instance has been expanded.
-/

set_option autoImplicit false

namespace FlatNet

/-- The elements ask for the same sub-circuit, with as many nodes and parameters of the same
names. -/
structure Element.Like (e e' : Element) : Prop where
  prototype : e.prototype? = e'.prototype?
  nodes : e.nodes.length = e'.nodes.length
  params : ∀ name, name ∈ e.params ↔ name ∈ e'.params

/-- An element is like itself. -/
theorem Element.Like.refl (e : Element) : e.Like e := ⟨rfl, rfl, fun _ => Iff.rfl⟩

/-- Two elements are alike whichever is taken first. -/
theorem Element.Like.symm {e e' : Element} (h : e.Like e') : e'.Like e :=
  ⟨h.prototype.symm, h.nodes.symm, fun name => (h.params name).symm⟩

/-- A copy is like the element it was made from. -/
theorem Instance.like_of_mem_copies {i : Instance} {g : Globals} {c : Element × Element}
    (h : c ∈ i.copies g) : c.2.Like c.1 := by
  obtain ⟨-, m, hcopy⟩ := exists_eq_copy_of_mem_copies h
  rw [hcopy]
  exact ⟨rfl, List.length_map _, fun _ => mem_outsideAll⟩

/-- Every element of the sub-circuit has a copy. -/
theorem Instance.exists_copy {i : Instance} (g : Globals) {e : Element}
    (h : e ∈ i.proto.elements.values) : ∃ c ∈ i.copies g, c.1 = e := by
  have hmap : (i.copies g).map Prod.fst = i.proto.elements.values := map_fst_copyAll i g _ _
  rw [← hmap] at h
  exact List.mem_map.1 h

namespace Expansion

variable {s : Setting} {root : Definition} {p : Progress} {e : Element} {i : Instance}

/-! ## Recording -/

/-- The instance that a name is expanded as, if it is expanded. -/
def Setting.due? (s : Setting) (p : Progress) (name : String) : Option Instance :=
  if p.aborted || s.maxExpansions < p.expansions + 1 then none
  else (p.circuit.elements[name]?).bind s.instance?

/-- Expands the instance of a name and notes it. -/
def recordNamed (s : Setting) (state : Progress × List Instance) (name : String) :
    Progress × List Instance :=
  (expandNamed s state.1 name, state.2 ++ (s.due? state.1 name).toList)

/-- Expands a level of instances and the levels below it, and notes the instances. -/
def recordLevels (s : Setting) :
    Nat → List String → Progress × List Instance → Progress × List Instance
  | 0, level, state => (level.foldl (refuseNamed s) state.1, state.2)
  | n + 1, level, state =>
    let state := level.foldl (recordNamed s) ({ state.1 with next := #[] }, state.2)
    if state.1.aborted || state.1.next.isEmpty then state
    else recordLevels s n state.1.next.toList state

/-- The instances that are expanded when a netlist is flattened, in order. -/
def Setting.expansions (s : Setting) (root : Definition) : List Instance :=
  (recordLevels s s.maxDepth (instanceNames root.elements) (begin root, [])).2

/-- A recorded level is, but for the notes, the level itself. -/
theorem foldl_recordNamed_fst (s : Setting) (names : List String)
    (state : Progress × List Instance) :
    (names.foldl (recordNamed s) state).1 = names.foldl (expandNamed s) state.1 := by
  induction names generalizing state with
  | nil => rfl
  | cons name rest ih => exact ih (recordNamed s state name)

/-- But for the notes a recorded run is the run itself. -/
theorem recordLevels_fst (s : Setting) (n : Nat) (names : List String)
    (state : Progress × List Instance) :
    (recordLevels s n names state).1 = expandLevels s n names state.1 := by
  induction n generalizing names state with
  | zero => rfl
  | succ n ih =>
    unfold recordLevels expandLevels
    dsimp only
    rw [foldl_recordNamed_fst]
    split
    · exact foldl_recordNamed_fst s names _
    · rw [ih, foldl_recordNamed_fst]

/-- An instance is noted if there is room for it and its sub-circuit is known. -/
theorem Setting.due?_eq_some_iff {name : String} :
    s.due? p name = some i ↔
      p.aborted = false ∧ p.expansions + 1 ≤ s.maxExpansions ∧
        p.circuit.elements[name]? = some i.element ∧ s.instance? i.element = some i := by
  unfold Setting.due?
  constructor
  · intro h
    split at h
    · exact absurd h (by simp)
    · rename_i hgoes
      rw [Bool.or_eq_true, not_or, decide_eq_true_iff, Nat.not_lt, Bool.not_eq_true] at hgoes
      obtain ⟨e, he, hi⟩ := Option.bind_eq_some_iff.1 h
      obtain ⟨rfl, -⟩ := Setting.instance?_eq_some_iff.1 hi
      exact ⟨hgoes.1, hgoes.2, he, hi⟩
  · rintro ⟨hgoes, hroom, he, hi⟩
    rw [hgoes, he, Bool.false_or, if_neg (by rwa [decide_eq_true_iff, Nat.not_lt]),
      Option.bind_some, hi]

/-- A name is expanded against the sub-circuit that is noted. -/
theorem expandNamed_of_due? {name : String} (h : s.due? p name = some i) :
    expandNamed s p name = expandInstance s.globals i (p.counted name) := by
  obtain ⟨hgoes, hroom, he, hi⟩ := Setting.due?_eq_some_iff.1 h
  obtain ⟨-, key, hkey, hproto⟩ := Setting.instance?_eq_some_iff.1 hi
  exact (Turn.expanded hgoes he hkey hroom hproto).eq

/-- If nothing is noted, nothing is put into the circuit. -/
theorem values_expandNamed_of_due?_eq_none {name : String} (h : s.due? p name = none) :
    ∀ e ∈ (expandNamed s p name).circuit.elements.values, e ∈ p.circuit.elements.values := by
  have herased : ∀ e ∈ (p.circuit.elements.erase name).values, e ∈ p.circuit.elements.values := by
    intro e he
    obtain ⟨other, hother⟩ := NameMap.mem_values.1 he
    exact NameMap.mem_values.2 ⟨other, NameMap.getElem?_of_erase hother⟩
  have hturn := turn_expandNamed s p name
  generalize expandNamed s p name = q at hturn ⊢
  cases hturn with
  | aborted _ | idle _ => exact fun _ he => he
  | excess _ _ _ _ | unknown _ _ _ _ _ => exact herased
  | @expanded e key proto hgoes he hkey hroom hproto =>
    -- here the instance would have been noted
    have hinst : s.instance? e = some ⟨e, proto⟩ :=
      Setting.instance?_eq_some_iff.2 ⟨rfl, key, hkey, hproto⟩
    have hdue : s.due? p name = some ⟨e, proto⟩ :=
      Setting.due?_eq_some_iff.2 ⟨hgoes, hroom, he, hinst⟩
    rw [hdue] at h
    exact absurd h (by simp)

/-! ## Where instances stem from -/

/-- The definitions that a netlist uses: its own one and, with a definition, the sub-circuits of the
instances in it. -/
inductive Setting.Uses (s : Setting) (root : Definition) : Definition → Prop
  | root : Uses s root root
  | inner {d : Definition} {e : Element} {i : Instance} (hd : Uses s root d)
      (he : e ∈ d.elements.values) (hi : s.instance? e = some i) : Uses s root i.proto

/-- The element is like one of a definition that the netlist uses. -/
def Setting.Stems (s : Setting) (root : Definition) (e : Element) : Prop :=
  ∃ d, s.Uses root d ∧ ∃ e₀ ∈ d.elements.values, e.Like e₀

/-- Elements that are alike are instances of one sub-circuit. -/
theorem Setting.instance?_of_like {e e₀ : Element} (h : e.Like e₀) (hi : s.instance? e = some i) :
    s.instance? e₀ = some ⟨e₀, i.proto⟩ := by
  obtain ⟨-, key, hkey, hproto⟩ := Setting.instance?_eq_some_iff.1 hi
  exact Setting.instance?_eq_some_iff.2 ⟨rfl, key, h.prototype ▸ hkey, hproto⟩

/-- The sub-circuit of an instance that stems from the netlist is used by it. -/
theorem Setting.Stems.uses (h : s.Stems root e) (hi : s.instance? e = some i) :
    s.Uses root i.proto := by
  obtain ⟨d, hd, e₀, he₀, hlike⟩ := h
  have huses := Setting.Uses.inner hd he₀ (Setting.instance?_of_like hlike hi)
  exact huses

/-- Copies that are put into the circuit add no other elements. -/
theorem values_addCopies (i : Instance) (cs : List (Element × Element)) (p : Progress) :
    ∀ e ∈ (addCopies i cs p).circuit.elements.values,
      (∃ c ∈ cs, e = c.2) ∨ e ∈ p.circuit.elements.values := by
  refine addCopies_keeps (p := p) (Q := fun q => ∀ e ∈ q.circuit.elements.values,
    (∃ c ∈ cs, e = c.2) ∨ e ∈ p.circuit.elements.values) (fun c hc p' q hjoins hp => ?_)
    fun _ he => .inr he
  cases hjoins with
  | unbound _ | taken _ _ => exact hp
  | inserted _ _ =>
    intro e he
    rcases NameMap.mem_values_insert he with rfl | he
    · exact .inl ⟨c, hc, rfl⟩
    · exact hp e he

/-- All elements of the circuit and all instances noted stem from the netlist. -/
structure AllStem (s : Setting) (root : Definition) (state : Progress × List Instance) : Prop where
  elements : ∀ e ∈ state.1.circuit.elements.values, s.Stems root e
  noted : ∀ i ∈ state.2, s.instance? i.element = some i ∧ s.Stems root i.element

/-- All elements and instances stem from the netlist behind one more that is expanded and noted. -/
theorem AllStem.recordNamed {state : Progress × List Instance} (h : AllStem s root state)
    (name : String) : AllStem s root (recordNamed s state name) := by
  unfold Expansion.recordNamed
  cases hdue : s.due? state.1 name with
  | none =>
    refine ⟨fun e he => h.elements e (values_expandNamed_of_due?_eq_none hdue e he), ?_⟩
    rw [Option.toList_none, List.append_nil]
    exact h.noted
  | some i =>
    obtain ⟨-, -, he, hi⟩ := Setting.due?_eq_some_iff.1 hdue
    have hstems := h.elements i.element (NameMap.mem_values.2 ⟨name, he⟩)
    refine ⟨fun e' he' => ?_, fun j hj => ?_⟩
    · change e' ∈ (expandNamed s state.1 name).circuit.elements.values at he'
      rw [expandNamed_of_due? hdue, expandInstance_eq] at he'
      rcases values_addCopies i _ _ e' he' with ⟨c, hc, rfl⟩ | hold
      · have hmem := (Instance.exists_eq_copy_of_mem_copies hc).1
        exact ⟨i.proto, hstems.uses hi, c.1, hmem, Instance.like_of_mem_copies hc⟩
      · obtain ⟨other, hother⟩ := NameMap.mem_values.1 hold
        exact h.elements e' (NameMap.mem_values.2 ⟨other, NameMap.getElem?_of_erase hother⟩)
    · rcases List.mem_append.1 hj with hj | hj
      · exact h.noted j hj
      · obtain rfl := List.mem_singleton.1 hj
        exact ⟨hi, hstems⟩

/-- All elements and instances stem from the netlist behind a recorded level. -/
theorem AllStem.foldl_recordNamed {state : Progress × List Instance} (h : AllStem s root state)
    (names : List String) : AllStem s root (names.foldl (Expansion.recordNamed s) state) := by
  induction names generalizing state with
  | nil => exact h
  | cons name rest ih => exact ih (h.recordNamed name)

/-- Whatever a run notes stems from the netlist. -/
theorem AllStem.noted_recordLevels {state : Progress × List Instance} (h : AllStem s root state)
    (n : Nat) (names : List String) :
    ∀ i ∈ (recordLevels s n names state).2,
      s.instance? i.element = some i ∧ s.Stems root i.element := by
  induction n generalizing names state with
  | zero => exact h.noted
  | succ n ih =>
    have hstart : AllStem s root ({ state.1 with next := #[] }, state.2) := ⟨h.elements, h.noted⟩
    have hlevel := hstart.foldl_recordNamed names
    unfold recordLevels
    dsimp only
    split
    · exact hlevel.noted
    · exact ih hlevel _

/-- Every instance that is expanded is expanded against its sub-circuit, and stems from a definition
that the netlist uses. -/
theorem Setting.stems_of_mem_expansions (h : i ∈ s.expansions root) :
    s.instance? i.element = some i ∧ s.Stems root i.element := by
  refine AllStem.noted_recordLevels ⟨fun e he => ?_, List.forall_mem_nil _⟩ _ _ i h
  exact ⟨root, .root, e, he, .refl e⟩

/-! ## Recorded expansion without findings -/

/-- The instance that waits first is the one noted, if nothing is wrong with its expansion. -/
theorem due?_of_stands {o : Occurrence} {settled waiting found : List Occurrence}
    (h : (expandNamed s p o.outer.refDes).Quiet) (haborted : p.aborted = false)
    (hp : Stands p settled (o :: waiting) found) :
    s.due? p o.outer.refDes = s.instance? o.outer := by
  have hget : p.circuit.elements[o.outer.refDes]? = some o.outer := hp.getElem?_refDes (by simp)
  obtain ⟨proto, hroom, hinst, -⟩ := expanded_of_stands h haborted hp
  rw [hinst]
  exact Setting.due?_eq_some_iff.2 ⟨haborted, hroom, hget, hinst⟩

/-- A level notes its instances, if nothing is wrong with it. -/
theorem noted_level {level : List Occurrence} {settled found : List Occurrence}
    (noted : List Instance)
    (h : ((level.map fun o => o.outer.refDes).foldl (expandNamed s) p).Quiet)
    (haborted : p.aborted = false) (hp : Stands p settled level found) :
    ((level.map fun o => o.outer.refDes).foldl (recordNamed s) (p, noted)).2 =
      noted ++ level.filterMap fun o => s.instance? o.outer := by
  induction level generalizing p settled found noted with
  | nil => exact (List.append_nil _).symm
  | cons o rest ih =>
    rw [List.map_cons, List.foldl_cons] at h
    have hquiet : (expandNamed s p o.outer.refDes).Quiet := quiet_of_quiet_level h
    obtain ⟨hsame, -, -, -, hstands⟩ := stands_expandNamed hquiet haborted hp
    have hrest := ih (noted ++ (s.due? p o.outer.refDes).toList) h hsame hstands
    rw [List.map_cons, List.foldl_cons]
    show (List.foldl (recordNamed s) (expandNamed s p o.outer.refDes, _) _).2 = _
    rw [hrest, due?_of_stands hquiet haborted hp, List.append_assoc, List.filterMap_cons]
    cases s.instance? o.outer <;> rfl

/-- Where no instances are left nothing more is noted. -/
theorem recordLevels_nil (s : Setting) (n : Nat) {noted : List Instance} (hnext : p.next = #[]) :
    recordLevels s n [] (p, noted) = (p, noted) := by
  cases n with
  | zero => rfl
  | succ n =>
    have hreset : { p with next := #[] } = p := by rw [← hnext]
    unfold recordLevels
    simp [hnext, hreset]

/-- Behind a level that has not been given up the next one is recorded. -/
theorem recordLevels_succ {n : Nat} {names : List String} {state : Progress × List Instance}
    (haborted :
      (names.foldl (expandNamed s) { state.1 with next := #[] }).aborted = false) :
    recordLevels s (n + 1) names state =
      let q := names.foldl (recordNamed s) ({ state.1 with next := #[] }, state.2)
      recordLevels s n q.1.next.toList q := by
  have hsame := foldl_recordNamed_fst s names ({ state.1 with next := #[] }, state.2)
  dsimp only at hsame
  rw [← hsame] at haborted
  rw [recordLevels]
  dsimp only
  rw [haborted, Bool.false_or]
  split
  · rename_i hempty
    have hnext := Array.isEmpty_iff.1 hempty
    rw [hnext]
    exact (recordLevels_nil s n hnext).symm
  · rfl

/-- A run notes all instances of the recursive expansion, if nothing is found wrong. -/
theorem noted_recordLevels {n : Nat} {level settled : List Occurrence} (noted : List Instance)
    (h : (expandLevels s n (level.map fun o => o.outer.refDes) p).Quiet)
    (haborted : p.aborted = false) (hp : Stands { p with next := #[] } settled level []) :
    (recordLevels s n (level.map fun o => o.outer.refDes) (p, noted)).2 =
      noted ++ (s.instancesFrom n level).filterMap (fun o => s.instance? o.outer) := by
  induction n generalizing level p settled noted with
  | zero =>
    have hnil : level = [] := eq_nil_of_quiet_refuse h hp
    subst hnil
    exact (List.append_nil _).symm
  | succ n ih =>
    have hlevel := quiet_level_of_quiet_expandLevels h
    obtain ⟨hgoes, -, -, -, hstands⟩ := stands_level hlevel haborted hp
    rw [List.nil_append] at hstands
    rw [expandLevels_succ hgoes] at h
    dsimp only at h
    rw [hstands.next] at h
    have hnoted := noted_level noted hlevel haborted hp
    have hstate : (level.map fun o => o.outer.refDes).foldl (recordNamed s)
        ({ p with next := #[] }, noted) =
          (_, noted ++ level.filterMap fun o => s.instance? o.outer) :=
      Prod.ext (foldl_recordNamed_fst s _ _) hnoted
    have hrest := ih (noted ++ level.filterMap fun o => s.instance? o.outer) h hgoes
      hstands.advance
    rw [recordLevels_succ hgoes]
    dsimp only
    rw [hstate]
    dsimp only
    rw [hstands.next, hrest, Setting.instancesFrom, List.filterMap_append, List.append_assoc]

/-- If nothing is found wrong, every instance in a definition that the netlist uses has been
expanded, under its own name or as a copy. -/
theorem exists_mem_expansions (hquiet : (flatten s root).2 = []) (hkeyed : Keyed root.elements)
    (hbound : ∀ e ∈ root.elements.values, e.isUnresolved = false) {d : Definition}
    (hd : s.Uses root d) (he : e ∈ d.elements.values) (hi : s.instance? e = some i) :
    ∃ j ∈ s.expansions root, j.element.Like e ∧ j.proto = i.proto := by
  have hrun : (expandLevels s s.maxDepth (instanceNames root.elements) (begin root)).Quiet :=
    Array.toList_eq_nil_iff.1 hquiet
  rw [instanceNames_eq] at hrun
  have hnoted := noted_recordLevels [] hrun rfl (stands_begin hkeyed hbound)
  obtain ⟨hbegin, hclosed⟩ := closed_expanded_of_quiet hquiet hkeyed hbound
  rw [← instanceNames_eq, List.nil_append] at hnoted
  change s.expansions root = (s.expanded root).filterMap _ at hnoted
  have hplace : ∃ o ∈ s.expanded root, o.outer.Like e := by
    induction hd generalizing e i with
    | root =>
      exact ⟨⟨[], e, e⟩, hbegin _ (List.mem_map_of_mem he) (Setting.isInstance_of_instance? hi),
        .refl e⟩
    | inner _ he₁ hi₁ ih =>
      -- the instance in the definition around has been expanded, and so its copy of the element is
      obtain ⟨o, ho, hlike⟩ := ih he₁ hi₁
      have ho₁ := Setting.instance?_of_like hlike.symm hi₁
      obtain ⟨c, hc, rfl⟩ := Instance.exists_copy (i := ⟨o.outer, _⟩) s.globals he
      have hcopy := Instance.like_of_mem_copies hc
      refine ⟨⟨o.path, c.1, c.2⟩, hclosed o ho _ ?_ ?_, hcopy⟩
      · rw [Setting.inside_of_instance? ho₁]
        exact List.mem_map_of_mem hc
      · have hsome := Setting.isInstance_of_instance? (o := ⟨[], c.1, c.1⟩) hi
        change c.1.prototype?.isSome = true at hsome
        rwa [← hcopy.prototype] at hsome
  obtain ⟨o, ho, hlike⟩ := hplace
  have hj := Setting.instance?_of_like hlike.symm hi
  refine ⟨⟨o.outer, i.proto⟩, ?_, hlike, rfl⟩
  rw [hnoted]
  exact List.mem_filterMap.2 ⟨o, ho, hj⟩

end Expansion

end FlatNet
