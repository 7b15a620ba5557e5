import FlatNet.Proofs.Element
import FlatNet.Proofs.Expansion.Occurrence
import FlatNet.Proofs.Expansion.Run

/-!
# Expansion without findings

Instances are expanded by taking them out of one map of elements, inserting their copies under new
names and noting the names of copies that are instances again.  As long as nothing is found wrong,
the map stands for three rows of places: those that are settled, those that wait in the present
level and those found for the next one.  `Stands` is this invariant.  `stands_expandNamed` says what
one instance does to the rows, `stands_level` what a level does, and `stands_expandLevels` that in
the end nothing but the leaves of the recursive expansion is left.
-/

set_option autoImplicit false

namespace FlatNet.Expansion

/-! ## Findings stay -/

namespace Progress

/-- Nothing has been found wrong. -/
def Quiet (p : Progress) : Prop := p.findings = #[]

/-- After a report something has been found wrong. -/
theorem not_quiet_report (p : Progress) (f : Finding) : ¬(p.report f).Quiet := by
  intro h
  exact absurd h (by simp [Quiet, report])

end Progress

/-- A copy that nothing is wrong with is bound and has a new name, and is inserted. -/
theorem addCopy_of_quiet {i : Instance} {inner copied : Element} {p : Progress}
    (h : (addCopy i inner copied p).Quiet) :
    p.Quiet ∧ copied.isUnresolved = false ∧ p.circuit.elements[copied.refDes]? = none ∧
      addCopy i inner copied p = p.insert copied := by
  have hjoins := joins_addCopy i inner copied p
  generalize addCopy i inner copied p = q at h hjoins ⊢
  cases hjoins with
  | unbound _ | taken _ _ => exact absurd h (p.not_quiet_report _)
  | inserted hbound hfree => exact ⟨h, hbound, hfree, rfl⟩

/-! ## The rows that the elements stand for -/

/-- The elements are those of three rows of places, found under their names; the last row is the
next level, and only the first one has primitive models. -/
structure Stands (p : Progress) (settled waiting found : List Occurrence) : Prop where
  keyed : Keyed p.circuit.elements
  elements : p.circuit.elements.values.Perm ((settled ++ waiting ++ found).map Occurrence.outer)
  next : p.next.toList = found.map fun o => o.outer.refDes
  settled : ∀ o ∈ settled, o.isLeaf = true
  waiting : ∀ o ∈ waiting, o.isInstance = true
  found : ∀ o ∈ found, o.isInstance = true

/-- What is bound is a leaf or an instance. -/
theorem Occurrence.isLeaf_eq_not_isInstance {o : Occurrence}
    (h : o.outer.isUnresolved = false) : o.isLeaf = !o.isInstance := by
  unfold Element.isUnresolved at h
  unfold Occurrence.isLeaf Occurrence.isInstance Element.primitive? Element.prototype?
  cases hbinding : o.outer.binding with
  | unresolved name =>
    rw [hbinding] at h
    exact absurd h (by simp)
  | primitive p => rfl
  | prototype key => rfl

namespace Stands

variable {p : Progress} {settled waiting found : List Occurrence}

/-- An element of the rows is found under its name. -/
theorem getElem?_refDes (h : Stands p settled waiting found) {o : Occurrence}
    (ho : o ∈ settled ++ waiting ++ found) :
    p.circuit.elements[o.outer.refDes]? = some o.outer :=
  h.keyed.getElem?_refDes (h.elements.mem_iff.2 (List.mem_map_of_mem ho))

/-- A new leaf joins the settled places. -/
theorem insert_leaf (h : Stands p settled waiting found) {c : Occurrence}
    (hfree : p.circuit.elements[c.outer.refDes]? = none) (hleaf : c.isLeaf = true)
    (hnot : c.isInstance = false) :
    Stands (p.insert c.outer) (settled ++ [c]) waiting found where
  keyed := h.keyed.insert c.outer
  elements := by
    have hperm := (NameMap.values_insert_perm hfree c.outer).trans (h.elements.cons c.outer)
    refine hperm.trans ?_
    rw [← List.map_cons, List.append_assoc, List.append_assoc, List.append_assoc]
    exact (List.perm_middle.symm).map Occurrence.outer
  next := by
    have hnone : c.outer.prototype?.isSome = false := hnot
    show (if c.outer.prototype?.isSome then _ else p.next).toList = _
    rw [hnone]
    exact h.next
  settled := by
    intro o ho
    rcases List.mem_append.1 ho with ho | ho
    · exact h.settled o ho
    · rwa [List.mem_singleton.1 ho]
  waiting := h.waiting
  found := h.found

/-- A new instance is due in the next level. -/
theorem insert_instance (h : Stands p settled waiting found) {c : Occurrence}
    (hfree : p.circuit.elements[c.outer.refDes]? = none) (hinst : c.isInstance = true) :
    Stands (p.insert c.outer) settled waiting (found ++ [c]) where
  keyed := h.keyed.insert c.outer
  elements := by
    have hperm := (NameMap.values_insert_perm hfree c.outer).trans (h.elements.cons c.outer)
    refine hperm.trans ?_
    rw [← List.map_cons, ← List.append_assoc]
    exact ((List.perm_append_singleton c _).symm).map Occurrence.outer
  next := by
    have hsome : c.outer.prototype?.isSome = true := hinst
    show (if c.outer.prototype?.isSome then p.next.push c.outer.refDes else p.next).toList = _
    rw [hsome, if_pos rfl, Array.toList_push, h.next, List.map_append]
    rfl
  settled := h.settled
  waiting := h.waiting
  found := by
    intro o ho
    rcases List.mem_append.1 ho with ho | ho
    · exact h.found o ho
    · rwa [List.mem_singleton.1 ho]

/-- The first waiting instance is taken out. -/
theorem erase {o : Occurrence} (h : Stands p settled (o :: waiting) found) :
    Stands (p.erase o.outer.refDes) settled waiting found where
  keyed := h.keyed.erase o.outer.refDes
  elements := by
    have hget := h.getElem?_refDes (o := o) (by simp)
    have hout := NameMap.values_erase_perm hget
    have hmid : ((settled ++ o :: waiting ++ found).map Occurrence.outer).Perm
        (o.outer :: (settled ++ waiting ++ found).map Occurrence.outer) := by
      rw [← List.map_cons, List.append_assoc, List.append_assoc]
      exact List.perm_middle.map Occurrence.outer
    exact ((hout.symm.trans h.elements).trans hmid).cons_inv
  next := h.next
  settled := h.settled
  waiting := fun c hc => h.waiting c (List.mem_cons_of_mem o hc)
  found := h.found

/-- Nothing but the elements and the next level matters for the rows. -/
theorem congr (h : Stands p settled waiting found) {q : Progress}
    (helements : q.circuit.elements = p.circuit.elements) (hnext : q.next = p.next) :
    Stands q settled waiting found where
  keyed := by
    rw [helements]
    exact h.keyed
  elements := by
    rw [helements]
    exact h.elements
  next := by
    rw [hnext]
    exact h.next
  settled := h.settled
  waiting := h.waiting
  found := h.found

end Stands

/-! ## One instance -/

/-- If nothing is found behind copies that are added, nothing had been found before. -/
theorem quiet_of_quiet_addCopies {i : Instance} {cs : List (Element × Element)} {p : Progress}
    (h : (addCopies i cs p).Quiet) : p.Quiet := by
  induction cs generalizing p with
  | nil => exact h
  | cons c rest ih => exact (addCopy_of_quiet (ih h)).1

/-- The places of copies that an instance with the path `around` makes. -/
def placesOf (around : List String) (cs : List (Element × Element)) : List Occurrence :=
  cs.map fun c => ⟨around, c.1, c.2⟩

/-- Of a row of copies that nothing is wrong with the leaves settle and the instances are due in
the next level. -/
theorem stands_addCopies (around : List String) {i : Instance} {cs : List (Element × Element)}
    {p : Progress} {settled waiting found : List Occurrence}
    (h : (addCopies i cs p).Quiet) (hp : Stands p settled waiting found) :
    (addCopies i cs p).aborted = p.aborted ∧
      (∀ c ∈ placesOf around cs, c.isLeaf = !c.isInstance) ∧
      Stands (addCopies i cs p) (settled ++ (placesOf around cs).filter Occurrence.isLeaf) waiting
        (found ++ (placesOf around cs).filter Occurrence.isInstance) := by
  induction cs generalizing p settled found with
  | nil =>
    refine ⟨rfl, by simp [placesOf], ?_⟩
    simpa [placesOf, addCopies] using hp
  | cons c rest ih =>
    have hquiet : (addCopy i c.1 c.2 p).Quiet := quiet_of_quiet_addCopies h
    obtain ⟨-, hbound, hfree, heq⟩ := addCopy_of_quiet hquiet
    have hleaf := Occurrence.isLeaf_eq_not_isInstance (o := ⟨around, c.1, c.2⟩) hbound
    change (addCopies i rest (addCopy i c.1 c.2 p)).Quiet at h
    show (addCopies i rest (addCopy i c.1 c.2 p)).aborted = p.aborted ∧ _ ∧
      Stands (addCopies i rest (addCopy i c.1 c.2 p)) _ _ _
    rw [heq] at h ⊢
    have hplaces : placesOf around (c :: rest) = ⟨around, c.1, c.2⟩ :: placesOf around rest := rfl
    rw [hplaces]
    -- the first copy goes into one of the two rows that grow
    cases hinst : (⟨around, c.1, c.2⟩ : Occurrence).isInstance with
    | true =>
      have hnot : (⟨around, c.1, c.2⟩ : Occurrence).isLeaf = false := by rw [hleaf, hinst]; rfl
      obtain ⟨haborted, hrest, hstands⟩ := ih h (hp.insert_instance hfree hinst)
      refine ⟨haborted, List.forall_mem_cons.2 ⟨hleaf, hrest⟩, ?_⟩
      rw [List.filter_cons_of_neg (by rw [hnot]; simp), List.filter_cons_of_pos hinst]
      rwa [List.append_assoc] at hstands
    | false =>
      have hyes : (⟨around, c.1, c.2⟩ : Occurrence).isLeaf = true := by rw [hleaf, hinst]; rfl
      obtain ⟨haborted, hrest, hstands⟩ := ih h (hp.insert_leaf hfree hyes hinst)
      refine ⟨haborted, List.forall_mem_cons.2 ⟨hleaf, hrest⟩, ?_⟩
      rw [List.filter_cons_of_pos hyes, List.filter_cons_of_neg (by rw [hinst]; simp)]
      rwa [List.append_assoc] at hstands

/-- The name at hand is that of the first waiting instance, and so, if nothing is wrong with it,
this instance is the one that is expanded. -/
theorem expanded_of_stands {s : Setting} {o : Occurrence} {p : Progress}
    {settled waiting found : List Occurrence}
    (h : (expandNamed s p o.outer.refDes).Quiet) (haborted : p.aborted = false)
    (hp : Stands p settled (o :: waiting) found) :
    ∃ proto, p.expansions + 1 ≤ s.maxExpansions ∧
      s.instance? o.outer = some ⟨o.outer, proto⟩ ∧
      expandNamed s p o.outer.refDes =
        expandInstance s.globals ⟨o.outer, proto⟩ (p.counted o.outer.refDes) := by
  have hget : p.circuit.elements[o.outer.refDes]? = some o.outer :=
    hp.getElem?_refDes (by simp)
  have hturn := turn_expandNamed s p o.outer.refDes
  generalize expandNamed s p o.outer.refDes = q at h hturn ⊢
  cases hturn with
  | aborted hstop => exact absurd hstop (by rw [haborted]; exact Bool.false_ne_true)
  | idle hnone =>
    have hwaits : o.outer.prototype?.isSome = true := hp.waiting o List.mem_cons_self
    rw [hget, Option.bind_some] at hnone
    exact absurd hwaits (by rw [hnone]; exact Bool.false_ne_true)
  | excess _ _ _ _ | unknown _ _ _ _ _ => exact absurd h (Progress.not_quiet_report _ _)
  | @expanded e key proto _ he hkey hroom hproto =>
    obtain rfl : o.outer = e := Option.some.inj (hget.symm.trans he)
    exact ⟨proto, hroom, Setting.instance?_eq_some_iff.2 ⟨rfl, key, hkey, hproto⟩, rfl⟩

/-- What the expansion of one instance does to the rows, if nothing is wrong with it: the leaves
inside it settle, and the instances inside it are due in the next level. -/
theorem stands_expandNamed {s : Setting} {o : Occurrence} {p : Progress}
    {settled waiting found : List Occurrence}
    (h : (expandNamed s p o.outer.refDes).Quiet) (haborted : p.aborted = false)
    (hp : Stands p settled (o :: waiting) found) :
    (expandNamed s p o.outer.refDes).aborted = false ∧
      (s.instance? o.outer).isSome = true ∧
      (∀ c ∈ s.inside o, c.isLeaf = !c.isInstance) ∧
      (expandNamed s p o.outer.refDes).circuit.params = s.defineAt p.circuit.params o ∧
      Stands (expandNamed s p o.outer.refDes)
        (settled ++ (s.inside o).filter Occurrence.isLeaf) waiting
        (found ++ (s.inside o).filter Occurrence.isInstance) := by
  obtain ⟨proto, -, hinst, heq⟩ := expanded_of_stands h haborted hp
  rw [heq, expandInstance_eq] at h ⊢
  have hinside : s.inside o = placesOf o.path ((⟨o.outer, proto⟩ : Instance).copies s.globals) :=
    Setting.inside_of_instance? hinst
  have hquiet : (addCopies ⟨o.outer, proto⟩ ((⟨o.outer, proto⟩ : Instance).copies s.globals)
      (p.counted o.outer.refDes)).Quiet := h
  have hcounted : Stands (p.counted o.outer.refDes) settled waiting found :=
    hp.erase.congr rfl rfl
  obtain ⟨hsame, hleaves, hstands⟩ := stands_addCopies o.path hquiet hcounted
  rw [← hinside] at hleaves hstands
  refine ⟨hsame.trans haborted, ?_, hleaves, ?_, ?_⟩
  · rw [hinst]
    rfl
  · unfold Setting.defineAt
    rw [hinst]
    rfl
  · exact hstands.congr rfl rfl

/-! ## Levels -/

/-- If nothing is found behind an instance that is expanded, nothing had been found before. -/
theorem quiet_of_quiet_expandNamed {s : Setting} {p : Progress} {name : String}
    (h : (expandNamed s p name).Quiet) : p.Quiet := by
  have hturn := turn_expandNamed s p name
  generalize expandNamed s p name = q at h hturn
  cases hturn with
  | aborted _ | idle _ => exact h
  | excess _ _ _ _ | unknown _ _ _ _ _ => exact absurd h (Progress.not_quiet_report _ _)
  | expanded _ _ _ _ _ =>
    rw [expandInstance_eq] at h
    have hcounted : (p.counted name).Quiet := quiet_of_quiet_addCopies h
    exact hcounted

/-- If nothing is found behind a level, nothing had been found before. -/
theorem quiet_of_quiet_level {s : Setting} {names : List String} {p : Progress}
    (h : (names.foldl (expandNamed s) p).Quiet) : p.Quiet := by
  induction names generalizing p with
  | nil => exact h
  | cons name rest ih => exact quiet_of_quiet_expandNamed (ih h)

/-- If nothing is found behind names that are refused, nothing had been found before. -/
theorem quiet_of_quiet_refuse {s : Setting} {names : List String} {p : Progress}
    (h : (names.foldl (refuseNamed s) p).Quiet) : p.Quiet := by
  induction names generalizing p with
  | nil => exact h
  | cons name rest ih =>
    have hstep : (refuseNamed s p name).Quiet := ih h
    have hrefuses := refuses_refuseNamed s p name
    generalize refuseNamed s p name = q at hstep hrefuses
    cases hrefuses with
    | idle _ => exact hstep
    | refused _ _ => exact absurd hstep (Progress.not_quiet_report _ _)

/-- What a level does to the rows, if nothing is wrong with it. -/
theorem stands_level {s : Setting} {level : List Occurrence} {p : Progress}
    {settled found : List Occurrence}
    (h : ((level.map fun o => o.outer.refDes).foldl (expandNamed s) p).Quiet)
    (haborted : p.aborted = false) (hp : Stands p settled level found) :
    let q := (level.map fun o => o.outer.refDes).foldl (expandNamed s) p
    let row := level.flatMap s.inside
    q.aborted = false ∧ (∀ o ∈ level, (s.instance? o.outer).isSome = true) ∧
      (∀ c ∈ row, c.isLeaf = !c.isInstance) ∧
      q.circuit.params = level.foldl s.defineAt p.circuit.params ∧
      Stands q (settled ++ row.filter Occurrence.isLeaf) []
        (found ++ row.filter Occurrence.isInstance) := by
  induction level generalizing p settled found with
  | nil =>
    refine ⟨haborted, by simp, by simp, rfl, ?_⟩
    simpa using hp
  | cons o rest ih =>
    rw [List.map_cons, List.foldl_cons] at h
    have hquiet : (expandNamed s p o.outer.refDes).Quiet := quiet_of_quiet_level h
    obtain ⟨hsame, hknown, hleaves, hparams, hstands⟩ := stands_expandNamed hquiet haborted hp
    obtain ⟨hfinal, hrest, hrow, hfold, hall⟩ := ih h hsame hstands
    refine ⟨hfinal, List.forall_mem_cons.2 ⟨hknown, hrest⟩, ?_, ?_, ?_⟩
    · intro c hc
      rw [List.flatMap_cons, List.mem_append] at hc
      exact hc.elim (hleaves c) (hrow c)
    · rw [List.map_cons, List.foldl_cons, hfold, hparams, List.foldl_cons]
    · rw [List.map_cons, List.foldl_cons, List.flatMap_cons, List.filter_append,
        List.filter_append, ← List.append_assoc, ← List.append_assoc]
      exact hall

/-- Without instances expansion is over. -/
theorem expandLevels_nil (s : Setting) (n : Nat) {p : Progress} (hnext : p.next = #[]) :
    expandLevels s n [] p = p := by
  cases n with
  | zero => rfl
  | succ n =>
    have hreset : { p with next := #[] } = p := by rw [← hnext]
    unfold expandLevels
    simp [hnext, hreset]

/-- Behind a level that has not been given up the next one follows. -/
theorem expandLevels_succ {s : Setting} {n : Nat} {names : List String} {p : Progress}
    (haborted : (names.foldl (expandNamed s) { p with next := #[] }).aborted = false) :
    expandLevels s (n + 1) names p =
      let q := names.foldl (expandNamed s) { p with next := #[] }
      expandLevels s n q.next.toList q := by
  rw [expandLevels]
  dsimp only
  rw [haborted, Bool.false_or]
  split
  · rename_i hempty
    have hnext : (names.foldl (expandNamed s) { p with next := #[] }).next = #[] :=
      Array.isEmpty_iff.1 hempty
    rw [hnext]
    exact (expandLevels_nil s n hnext).symm
  · rfl

/-- A row of leaves and instances has the leaves among it and those of the instances. -/
theorem expands_flatMap {s : Setting} {row : List Occurrence}
    {below : Occurrence → List Occurrence} (hrow : ∀ c ∈ row, c.isLeaf = !c.isInstance)
    (hbelow : ∀ c ∈ row, c.isInstance = true → Expands s [c] (below c)) :
    Expands s row (row.flatMap fun c => if c.isLeaf then [c] else below c) := by
  refine Expands.flatMap fun c hc => ?_
  split
  · rename_i hleaf
    obtain ⟨model, hmodel⟩ := Option.isSome_iff_exists.1 hleaf
    exact Expands.leaf hmodel Expands.nil
  · rename_i hleaf
    rw [hrow c hc] at hleaf
    exact hbelow c hc (by simpa using hleaf)

/-- These leaves may be taken one kind after the other. -/
theorem leaves_perm_flatMap {row : List Occurrence} (below : Occurrence → List Occurrence)
    (hrow : ∀ c ∈ row, c.isLeaf = !c.isInstance) :
    (row.filter Occurrence.isLeaf ++ (row.filter Occurrence.isInstance).flatMap below).Perm
      (row.flatMap fun c => if c.isLeaf then [c] else below c) := by
  induction row with
  | nil => exact .nil
  | cons c rest ih =>
    obtain ⟨hc, hrest⟩ := List.forall_mem_cons.1 hrow
    have hperm := ih hrest
    rw [List.flatMap_cons]
    cases hinst : c.isInstance with
    | true =>
      have hleaf : c.isLeaf = false := by rw [hc, hinst]; rfl
      rw [List.filter_cons_of_neg (by rw [hleaf]; simp), List.filter_cons_of_pos hinst,
        List.flatMap_cons, hleaf, if_neg (by simp)]
      exact (List.perm_append_comm_assoc _ _ _).trans (hperm.append_left (below c))
    | false =>
      have hleaf : c.isLeaf = true := by rw [hc, hinst]; rfl
      rw [List.filter_cons_of_pos hleaf, List.filter_cons_of_neg (by rw [hinst]; simp), hleaf,
        if_pos rfl]
      exact hperm.cons c

/-- What has been found for the next level waits in it. -/
theorem Stands.advance {p : Progress} {settled found : List Occurrence}
    (h : Stands p settled [] found) : Stands { p with next := #[] } settled found [] where
  keyed := h.keyed
  elements := by
    rw [List.append_nil]
    have helements := h.elements
    rwa [List.append_nil] at helements
  next := rfl
  settled := h.settled
  waiting := h.found
  found := by simp

/-- If nothing is found behind a run, nothing had been found before. -/
theorem quiet_of_quiet_expandLevels {s : Setting} {n : Nat} {names : List String} {p : Progress}
    (h : (expandLevels s n names p).Quiet) : p.Quiet := by
  induction n generalizing names p with
  | zero => exact quiet_of_quiet_refuse h
  | succ n ih =>
    unfold expandLevels at h
    dsimp only at h
    have hlevel : (names.foldl (expandNamed s) { p with next := #[] }).Quiet := by
      split at h
      · exact h
      · exact ih h
    have hbefore : ({ p with next := #[] } : Progress).Quiet := quiet_of_quiet_level hlevel
    exact hbefore

/-- If nothing is wrong with a run, nothing is wrong with its first level. -/
theorem quiet_level_of_quiet_expandLevels {s : Setting} {n : Nat} {names : List String}
    {p : Progress} (h : (expandLevels s (n + 1) names p).Quiet) :
    (names.foldl (expandNamed s) { p with next := #[] }).Quiet := by
  unfold expandLevels at h
  dsimp only at h
  split at h
  · exact h
  · exact quiet_of_quiet_expandLevels h

/-- No instance waits where none may be expanded, if nothing is wrong. -/
theorem eq_nil_of_quiet_refuse {s : Setting} {level : List Occurrence} {p : Progress}
    {settled : List Occurrence}
    (h : ((level.map fun o => o.outer.refDes).foldl (refuseNamed s) p).Quiet)
    (hp : Stands { p with next := #[] } settled level []) : level = [] := by
  cases level with
  | nil => rfl
  | cons o rest =>
    have hstep : (refuseNamed s p o.outer.refDes).Quiet := quiet_of_quiet_refuse h
    have hget : p.circuit.elements[o.outer.refDes]? = some o.outer :=
      hp.getElem?_refDes (by simp)
    obtain ⟨key, hkey⟩ := Option.isSome_iff_exists.1 (hp.waiting o List.mem_cons_self)
    rw [(Refuses.refused hget hkey).eq] at hstep
    exact absurd hstep (Progress.not_quiet_report _ _)

/-- Whatever waits at the beginning is expanded, if nothing is wrong with the run, and so is every
instance inside one that is expanded. -/
theorem closed_instancesFrom {s : Setting} {n : Nat} {level : List Occurrence} {p : Progress}
    {settled : List Occurrence}
    (h : (expandLevels s n (level.map fun o => o.outer.refDes) p).Quiet)
    (haborted : p.aborted = false) (hp : Stands { p with next := #[] } settled level []) :
    level ⊆ s.instancesFrom n level ∧
      ∀ o ∈ s.instancesFrom n level, ∀ c ∈ s.inside o, c.isInstance = true →
        c ∈ s.instancesFrom n level := by
  induction n generalizing level p settled with
  | zero =>
    rw [eq_nil_of_quiet_refuse h hp]
    exact ⟨List.nil_subset _, List.forall_mem_nil _⟩
  | succ n ih =>
    have hlevel := quiet_level_of_quiet_expandLevels h
    obtain ⟨hgoes, -, -, -, hstands⟩ := stands_level hlevel haborted hp
    rw [List.nil_append] at hstands
    rw [expandLevels_succ hgoes] at h
    dsimp only at h
    rw [hstands.next] at h
    obtain ⟨hnext, hclosed⟩ := ih h hgoes hstands.advance
    refine ⟨List.subset_append_left _ _, fun o ho c hc hinst => ?_⟩
    rw [Setting.instancesFrom, List.mem_append] at ho ⊢
    -- what is inside this level waits in the next one
    rcases ho with ho | ho
    · exact .inr (hnext (List.mem_filter.2 ⟨List.mem_flatMap_of_mem ho hc, hinst⟩))
    · exact .inr (hclosed o ho c hc hinst)

/-- What a run does to the rows, if nothing is wrong with it: every waiting instance is replaced by
its leaves, those of one level after the other, and the instances below it define their parameters
in the same order. -/
theorem stands_expandLevels {s : Setting} {n : Nat} {level : List Occurrence} {p : Progress}
    {settled : List Occurrence}
    (h : (expandLevels s n (level.map fun o => o.outer.refDes) p).Quiet)
    (haborted : p.aborted = false) (hp : Stands { p with next := #[] } settled level []) :
    let q := expandLevels s n (level.map fun o => o.outer.refDes) p
    ∃ below : Occurrence → List Occurrence, (∀ o ∈ level, Expands s [o] (below o)) ∧
      q.circuit.params = (s.instancesFrom n level).foldl s.defineAt p.circuit.params ∧
      Keyed q.circuit.elements ∧
      q.circuit.elements.values.Perm
        ((settled ++ level.flatMap below).map Occurrence.outer) ∧
      q.circuit.elements.values.Perm
        ((settled ++ ((s.instancesFrom n level).flatMap s.inside).filter Occurrence.isLeaf).map
          Occurrence.outer) := by
  induction n generalizing level p settled with
  | zero =>
    -- whatever waited here would have been refused
    have hnil : level = [] := eq_nil_of_quiet_refuse h hp
    subst hnil
    have helements := hp.elements
    rw [List.append_nil] at helements
    refine ⟨fun _ => [], by simp, rfl, hp.keyed, ?_, ?_⟩
    · rw [List.flatMap_nil]
      exact helements
    · rw [Setting.instancesFrom_nil]
      exact helements
  | succ n ih =>
    have hlevel := quiet_level_of_quiet_expandLevels h
    obtain ⟨hgoes, hknown, hrow, hparams, hstands⟩ := stands_level hlevel haborted hp
    rw [List.nil_append] at hstands
    rw [expandLevels_succ hgoes] at h ⊢
    dsimp only at h ⊢
    rw [hstands.next] at h ⊢
    -- the leaves of an instance are those inside it and those of the instances inside it, which
    -- wait in the next level
    obtain ⟨below, hbelow, hfold, hkeyed, hperm, hrows⟩ := ih h hgoes hstands.advance
    refine ⟨fun o => (s.inside o).flatMap fun c => if c.isLeaf then [c] else below c, ?_, ?_,
      hkeyed, ?_, ?_⟩
    · intro o ho
      obtain ⟨i, hi⟩ := Option.isSome_iff_exists.1 (hknown o ho)
      have hmem : ∀ c ∈ s.inside o, c ∈ level.flatMap s.inside :=
        fun c hc => List.mem_flatMap_of_mem ho hc
      refine Expands.single hi (expands_flatMap (fun c hc => hrow c (hmem c hc)) ?_)
      intro c hc hinst
      exact hbelow c (List.mem_filter.2 ⟨hmem c hc, hinst⟩)
    · rw [hfold, hparams, Setting.instancesFrom, List.foldl_append]
    · refine hperm.trans (List.Perm.map _ ?_)
      rw [List.append_assoc, ← List.flatMap_assoc]
      exact (leaves_perm_flatMap below hrow).append_left settled
    · rwa [Setting.instancesFrom, List.flatMap_append, List.filter_append, ← List.append_assoc]

end FlatNet.Expansion
