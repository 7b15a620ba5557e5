import FlatNet.Proofs.Expansion.Run

/-!
# Expansion by a work queue

Instances may also be expanded one at a time: the first one in a queue is expanded, and what it
brings in goes to the end of the queue with the next depth.  `Drains` is this run.  Going through
a level and collecting the next one is the same, since the rest of the level and what has been found
so far make up the queue; `drains_flatten` says that expansion by levels ends where the queue does.
-/

set_option autoImplicit false

namespace FlatNet.Expansion

/-- The state in which expansion begins. -/
def begin (root : Definition) : Progress := ⟨start root, #[], 0, false, #[]⟩

/-- The state with nothing found for the next level. -/
def Progress.cleared (p : Progress) : Progress := { p with next := #[] }

/-- A queue of instances with their depths is worked off: too deep ones are refused, others are
expanded, and those that they bring in are appended; when expansion is given up, the rest of the
queue is left alone. -/
inductive Drains (s : Setting) : Progress → List (String × Nat) → Progress → Prop
  | done {p : Progress} : Drains s p [] p
  | aborted {p : Progress} {queue : List (String × Nat)} (haborted : p.aborted = true) :
      Drains s p queue p
  | refuse {p q : Progress} {name : String} {depth : Nat} {queue : List (String × Nat)}
      (hgoes : p.aborted = false) (hdeep : s.maxDepth < depth)
      (hrest : Drains s (refuseNamed s p name) queue q) : Drains s p ((name, depth) :: queue) q
  | expand {p q : Progress} {name : String} {depth : Nat} {queue : List (String × Nat)}
      (hgoes : p.aborted = false) (hdepth : depth ≤ s.maxDepth)
      (hrest : Drains s (expandNamed s p name).cleared
        (queue ++ (expandNamed s p name).next.toList.map fun found => (found, depth + 1)) q) :
      Drains s p ((name, depth) :: queue) q

variable {s : Setting} {p : Progress} {found : Array String}

/-- Nothing happens after expansion has been given up. -/
theorem Drains.eq_of_aborted {q : Progress} {queue : List (String × Nat)}
    (h : Drains s p queue q) (haborted : p.aborted = true) : q = p := by
  cases h with
  | done => rfl
  | aborted _ => rfl
  | refuse hgoes _ _ => exact absurd haborted (by simp [hgoes])
  | expand hgoes _ _ => exact absurd haborted (by simp [hgoes])

/-- A queue is worked off in one way. -/
theorem Drains.unique {q q' : Progress} {queue : List (String × Nat)} (h : Drains s p queue q)
    (h' : Drains s p queue q') : q = q' := by
  induction h with
  | done =>
    cases h' with
    | done => rfl
    | aborted _ => rfl
  | aborted haborted => exact (h'.eq_of_aborted haborted).symm
  | refuse hgoes hdeep _ ih =>
    cases h' with
    | aborted haborted => exact absurd haborted (by simp [hgoes])
    | refuse _ _ hrest => exact ih hrest
    | expand _ hdepth _ => exact absurd hdeep (Nat.not_lt.2 hdepth)
  | expand hgoes hdepth _ ih =>
    cases h' with
    | aborted haborted => exact absurd haborted (by simp [hgoes])
    | refuse _ hdeep _ => exact absurd hdeep (Nat.not_lt.2 hdepth)
    | expand _ _ hrest => exact ih hrest

/-! ## What has been found before does not matter -/

/-- The state with some instances found before. -/
def Progress.behind (p : Progress) (found : Array String) : Progress :=
  { p with next := found ++ p.next }

/-- What has been found for the next level can be taken off and put back. -/
theorem behind_next (p : Progress) : p.cleared.behind p.next = p := by
  unfold Progress.behind Progress.cleared
  simp

/-- Adding an element does not depend on the instances found before. -/
theorem insert_behind (e : Element) : (p.behind found).insert e = (p.insert e).behind found := by
  unfold Progress.insert Progress.behind
  cases e.prototype?.isSome with
  | true => simp
  | false => simp

/-- Adding a copy puts it behind the instances found before. -/
theorem addCopy_behind (i : Instance) (inner copied : Element) :
    addCopy i inner copied (p.behind found) = (addCopy i inner copied p).behind found := by
  unfold addCopy
  split
  · rfl
  · show (if p.circuit.elements.contains copied.refDes then _ else _) = _
    split
    · rfl
    · exact insert_behind copied

/-- Adding copies puts them behind the instances found before. -/
theorem addCopies_behind (i : Instance) (cs : List (Element × Element)) :
    addCopies i cs (p.behind found) = (addCopies i cs p).behind found := by
  induction cs generalizing p with
  | nil => rfl
  | cons c rest ih =>
    show addCopies i rest (addCopy i c.1 c.2 (p.behind found)) = _
    rw [addCopy_behind, ih]
    rfl

/-- Expanding an instance puts what it brings in behind the instances found before. -/
theorem expandInstance_behind (g : Globals) (i : Instance) :
    expandInstance g i (p.behind found) = (expandInstance g i p).behind found := by
  rw [expandInstance_eq, expandInstance_eq, addCopies_behind]
  rfl

/-- An instance is expanded alike whatever has been found before. -/
theorem expandNamed_behind (found : Array String) (name : String) :
    expandNamed s (p.behind found) name = (expandNamed s p name).behind found := by
  have hturn := turn_expandNamed s p name
  generalize expandNamed s p name = q at hturn ⊢
  cases hturn with
  | aborted haborted => exact Turn.eq (.aborted haborted)
  | idle hnone => exact Turn.eq (.idle hnone)
  | excess hgoes he hkey hover =>
    exact (Turn.excess (p := p.behind found) hgoes he hkey hover).eq
  | unknown hgoes he hkey hroom hproto =>
    exact (Turn.unknown (p := p.behind found) hgoes he hkey hroom hproto).eq
  | expanded hgoes he hkey hroom hproto =>
    rw [(Turn.expanded (p := p.behind found) hgoes he hkey hroom hproto).eq,
      ← expandInstance_behind]
    rfl

/-- Refusing an instance brings in nothing for the next level. -/
theorem refuseNamed_cleared (name : String) :
    refuseNamed s p.cleared name = (refuseNamed s p name).cleared := by
  have hrefuses := refuses_refuseNamed s p name
  generalize refuseNamed s p name = q at hrefuses ⊢
  cases hrefuses with
  | idle hnone => exact Refuses.eq (.idle hnone)
  | refused he hkey => exact (Refuses.refused (p := p.cleared) he hkey).eq

/-- Refusing an instance does not end the expansion. -/
theorem aborted_refuseNamed (name : String) : (refuseNamed s p name).aborted = p.aborted := by
  have hrefuses := refuses_refuseNamed s p name
  generalize refuseNamed s p name = q at hrefuses ⊢
  cases hrefuses with
  | idle _ | refused _ _ => rfl

/-! ## Levels -/

/-- Instances that are nested too deeply are refused one after the other. -/
theorem drains_refuse {depth : Nat} (hdeep : s.maxDepth < depth) (names : List String)
    (hgoes : p.aborted = false) :
    Drains s p.cleared (names.map fun name => (name, depth))
      (names.foldl (refuseNamed s) p).cleared := by
  induction names generalizing p with
  | nil => exact .done
  | cons name rest ih =>
    refine .refuse hgoes hdeep ?_
    rw [refuseNamed_cleared]
    exact ih ((aborted_refuseNamed name).trans hgoes)

/-- A level with what has been found behind it makes up the queue. -/
theorem drains_level {depth : Nat} (hdepth : depth ≤ s.maxDepth) (names : List String)
    {q : Progress}
    (h : Drains s (names.foldl (expandNamed s) p).cleared
      ((names.foldl (expandNamed s) p).next.toList.map fun found => (found, depth + 1)) q) :
    Drains s p.cleared
      ((names.map fun name => (name, depth)) ++ p.next.toList.map fun found => (found, depth + 1))
      q := by
  induction names generalizing p with
  | nil => exact h
  | cons name rest ih =>
    have hrest := ih h
    by_cases haborted : p.aborted = true
    · rw [(Turn.aborted haborted).eq] at hrest
      have hcleared : p.cleared.aborted = true := haborted
      rw [hrest.eq_of_aborted hcleared]
      exact .aborted hcleared
    · refine .expand (Bool.eq_false_iff.2 haborted) hdepth ?_
      -- what the first instance brings in comes behind what has been found before it
      have hstep := expandNamed_behind (s := s) (p := p.cleared) p.next name
      rw [behind_next] at hstep
      have hnext : (expandNamed s p name).next.toList =
          p.next.toList ++ (expandNamed s p.cleared name).next.toList := by
        rw [hstep]
        exact Array.toList_append
      have hcleared : (expandNamed s p name).cleared = (expandNamed s p.cleared name).cleared := by
        rw [hstep]
        rfl
      rw [hnext, hcleared, List.map_append, ← List.append_assoc] at hrest
      exact hrest

/-- Expansion by levels ends where the queue does. -/
theorem drains_expandLevels (n : Nat) (hn : n ≤ s.maxDepth) (names : List String)
    (hgoes : p.aborted = false) :
    Drains s p.cleared (names.map fun name => (name, s.maxDepth + 1 - n))
      (expandLevels s n names p).cleared := by
  induction n generalizing names p with
  | zero => exact drains_refuse (Nat.lt_succ_self _) names hgoes
  | succ n ih =>
    have hdepth : s.maxDepth + 1 - (n + 1) ≤ s.maxDepth := by omega
    have hlevel := drains_level (s := s) (p := p.cleared) hdepth names
      (q := (expandLevels s (n + 1) names p).cleared)
    have hqueue : (names.map fun name => (name, s.maxDepth + 1 - (n + 1))) ++
        p.cleared.next.toList.map (fun found => (found, s.maxDepth + 1 - (n + 1) + 1)) =
          names.map fun name => (name, s.maxDepth + 1 - (n + 1)) := List.append_nil _
    rw [hqueue] at hlevel
    refine hlevel ?_
    have hlevels : expandLevels s (n + 1) names p =
        if (names.foldl (expandNamed s) p.cleared).aborted ||
            (names.foldl (expandNamed s) p.cleared).next.isEmpty
          then names.foldl (expandNamed s) p.cleared
          else expandLevels s n (names.foldl (expandNamed s) p.cleared).next.toList
            (names.foldl (expandNamed s) p.cleared) := rfl
    rw [hlevels]
    generalize names.foldl (expandNamed s) p.cleared = q
    by_cases haborted : q.aborted = true
    · rw [haborted, Bool.true_or, if_pos rfl]
      exact .aborted haborted
    · have hgoes := Bool.eq_false_iff.2 haborted
      rw [hgoes, Bool.false_or]
      split
      · rename_i hempty
        rw [Array.isEmpty_iff.1 hempty]
        exact .done
      · have hrest := ih (by omega) q.next.toList hgoes
        have hsame : s.maxDepth + 1 - n = s.maxDepth + 1 - (n + 1) + 1 := by omega
        rwa [hsame] at hrest

/-- A netlist is flattened by working off the queue of its instances and leaving out those that are
left over. -/
theorem drains_flatten (s : Setting) (root : Definition) :
    ∃ p, Drains s (begin root) ((instanceNames root.elements).map fun name => (name, 1)) p ∧
      (flatten s root).1.elements = p.circuit.elements.filter (fun _ e => e.primitive?.isSome) ∧
      (flatten s root).1.params = p.circuit.params ∧ (flatten s root).2 = p.findings.toList := by
  have hrun := drains_expandLevels (s := s) (p := begin root) s.maxDepth (Nat.le_refl _)
    (instanceNames root.elements) rfl
  rw [Nat.add_sub_cancel_left] at hrun
  exact ⟨_, hrun, rfl, rfl, rfl⟩

end FlatNet.Expansion
