import FlatNet.Proofs.Instance.Copies

/-!
# Runs of the expansion

A run expands instances or takes them out, name by name, and begins a new row of names with every
level.  `Turn` lists what can come of a name that is to be expanded, `Refuses` what can come of one
that is nested too deeply; whatever is said of a step is said by their cases.  What the steps keep
is kept by the whole run; `expandLevels_invariant` is this induction.  One thing that is kept is
that everything found wrong is an error.
-/

set_option autoImplicit false

namespace FlatNet.Expansion

/-! ## Steps -/

/-- The state after the instance of a name has been taken out and counted. -/
def Progress.counted (p : Progress) (name : String) : Progress :=
  { p.erase name with expansions := p.expansions + 1 }

/-- What can come of a name that is to be expanded.  Nothing comes of it if expansion has been given
up or if no instance has the name; otherwise the instance is one too many, has an unknown
sub-circuit, or is replaced by copies. -/
inductive Turn (s : Setting) (p : Progress) (name : String) : Progress → Prop
  | aborted (haborted : p.aborted = true) : Turn s p name p
  | idle (hnone : (p.circuit.elements[name]?).bind Element.prototype? = none) : Turn s p name p
  | excess {e : Element} {key : PrototypeKey} (hgoes : p.aborted = false)
      (he : p.circuit.elements[name]? = some e) (hkey : e.prototype? = some key)
      (hover : s.maxExpansions < p.expansions + 1) :
      Turn s p name ({ p.counted name with aborted := true }.report
        (.usual (.expansionLimit s.maxExpansions) (some e.origin)))
  | unknown {e : Element} {key : PrototypeKey} (hgoes : p.aborted = false)
      (he : p.circuit.elements[name]? = some e) (hkey : e.prototype? = some key)
      (hroom : p.expansions + 1 ≤ s.maxExpansions) (hproto : s.prototype? key = none) :
      Turn s p name ((p.counted name).report
        (.usual (.unknownSubcircuit e.refDes key.path) (some e.origin)))
  | expanded {e : Element} {key : PrototypeKey} {proto : Definition} (hgoes : p.aborted = false)
      (he : p.circuit.elements[name]? = some e) (hkey : e.prototype? = some key)
      (hroom : p.expansions + 1 ≤ s.maxExpansions) (hproto : s.prototype? key = some proto) :
      Turn s p name (expandInstance s.globals ⟨e, proto⟩ (p.counted name))

/-- What can come of a name that is nested too deeply: an instance of that name is taken out. -/
inductive Refuses (s : Setting) (p : Progress) (name : String) : Progress → Prop
  | idle (hnone : (p.circuit.elements[name]?).bind Element.prototype? = none) : Refuses s p name p
  | refused {e : Element} {key : PrototypeKey} (he : p.circuit.elements[name]? = some e)
      (hkey : e.prototype? = some key) :
      Refuses s p name ((p.erase name).report
        (.usual (.depthLimit e.refDes s.maxDepth) (some e.origin)))

/-- What comes of a name that is to be expanded is one of the turns. -/
theorem turn_expandNamed (s : Setting) (p : Progress) (name : String) :
    Turn s p name (expandNamed s p name) := by
  unfold expandNamed
  split
  · rename_i haborted
    exact .aborted haborted
  · rename_i hgoes
    have hgoes := Bool.eq_false_iff.2 hgoes
    split
    · rename_i hnone
      exact .idle (by rw [hnone, Option.bind_none])
    · rename_i e he
      split
      · rename_i hnone
        exact .idle (by rw [he, Option.bind_some, hnone])
      · rename_i key hkey
        unfold expandCounted
        dsimp only
        split
        · rename_i hover
          exact .excess hgoes he hkey hover
        · rename_i hroom
          split
          · rename_i hproto
            exact .unknown hgoes he hkey (Nat.not_lt.1 hroom) hproto
          · rename_i proto hproto
            exact .expanded hgoes he hkey (Nat.not_lt.1 hroom) hproto

/-- What comes of a name that is nested too deeply is one of the refusals. -/
theorem refuses_refuseNamed (s : Setting) (p : Progress) (name : String) :
    Refuses s p name (refuseNamed s p name) := by
  unfold refuseNamed
  split
  · rename_i hnone
    exact .idle (by rw [hnone, Option.bind_none])
  · rename_i e he
    split
    · rename_i hnone
      exact .idle (by rw [he, Option.bind_some, hnone])
    · rename_i key hkey
      exact .refused he hkey

/-- The state and the name determine what comes of the name. -/
theorem Turn.eq {s : Setting} {p q : Progress} {name : String} (h : Turn s p name q) :
    expandNamed s p name = q := by
  unfold expandNamed
  cases h with
  | aborted haborted => rw [if_pos haborted]
  | idle hnone =>
    cases he : p.circuit.elements[name]? with
    | none => exact ite_self p
    | some e =>
      rw [he, Option.bind_some] at hnone
      dsimp only
      rw [hnone]
      exact ite_self p
  | excess hgoes he hkey hover =>
    rw [hgoes, if_neg Bool.false_ne_true, he]
    dsimp only
    rw [hkey]
    exact if_pos hover
  | unknown hgoes he hkey hroom hproto | expanded hgoes he hkey hroom hproto =>
    rw [hgoes, if_neg Bool.false_ne_true, he]
    dsimp only
    rw [hkey]
    dsimp only
    unfold expandCounted
    dsimp only
    rw [hproto]
    exact if_neg (Nat.not_lt.2 hroom)

/-- A refusal is what comes of a name that is nested too deeply. -/
theorem Refuses.eq {s : Setting} {p q : Progress} {name : String} (h : Refuses s p name q) :
    refuseNamed s p name = q := by
  unfold refuseNamed
  cases h with
  | idle hnone =>
    cases he : p.circuit.elements[name]? with
    | none => rfl
    | some e =>
      rw [he, Option.bind_some] at hnone
      dsimp only
      rw [hnone]
  | refused he hkey =>
    rw [he]
    dsimp only
    rw [hkey]

/-! ## Runs -/

/-- What every step on a name keeps is kept by a row of names. -/
theorem foldl_invariant {Q : Progress → Prop} {step : Progress → String → Progress}
    (hstep : ∀ p name, Q p → Q (step p name)) (names : List String) {p : Progress} (h : Q p) :
    Q (names.foldl step p) := by
  induction names generalizing p with
  | nil => exact h
  | cons name rest ih => exact ih (hstep p name h)

/-- What is kept by expanding an instance, by taking one out and by beginning a level is kept by a
run. -/
theorem expandLevels_invariant {s : Setting} {Q : Progress → Prop}
    (hexpand : ∀ p name, Q p → Q (expandNamed s p name))
    (hrefuse : ∀ p name, Q p → Q (refuseNamed s p name))
    (hbegin : ∀ p, Q p → Q { p with next := #[] }) (n : Nat) (names : List String)
    {p : Progress} (h : Q p) : Q (expandLevels s n names p) := by
  induction n generalizing names p with
  | zero => exact foldl_invariant hrefuse names h
  | succ n ih =>
    have hlevel := foldl_invariant hexpand names (hbegin p h)
    unfold expandLevels
    dsimp only
    split
    · exact hlevel
    · exact ih _ hlevel

/-- Everything that has been found wrong is an error. -/
def Progress.OnlyErrors (p : Progress) : Prop := ∀ f ∈ p.findings, f.isError = true

variable {s : Setting} {p : Progress}

/-- A problem that is an error may be reported. -/
theorem Progress.OnlyErrors.report (h : p.OnlyErrors) {problem : Problem} (origin : Option Origin)
    (hproblem : problem.severity = .error) : (p.report (.usual problem origin)).OnlyErrors := by
  intro f hf
  rcases Array.mem_push.1 hf with hf | rfl
  · exact h f hf
  · show (problem.severity == .error) = true
    rw [hproblem]
    rfl

/-- What is found wrong with copies is an error. -/
theorem onlyErrors_addCopies (h : p.OnlyErrors) (i : Instance) (cs : List (Element × Element)) :
    (addCopies i cs p).OnlyErrors := by
  refine addCopies_keeps (fun c _ p q hjoins hp => ?_) h
  cases hjoins with
  | unbound _ | taken _ _ => exact hp.report _ rfl
  | inserted _ _ => exact hp

/-- What is found wrong when an instance is expanded is an error. -/
theorem onlyErrors_expandInstance (h : p.OnlyErrors) (g : Globals) (i : Instance) :
    (expandInstance g i p).OnlyErrors := by
  rw [expandInstance_eq]
  have hadded := onlyErrors_addCopies h i (i.copies g)
  exact hadded

/-- What is found wrong with a name that is to be expanded is an error. -/
theorem onlyErrors_expandNamed (h : p.OnlyErrors) (name : String) :
    (expandNamed s p name).OnlyErrors := by
  have hcounted : (p.counted name).OnlyErrors := h
  have hturn := turn_expandNamed s p name
  generalize expandNamed s p name = q at hturn ⊢
  cases hturn with
  | aborted _ | idle _ => exact h
  | excess _ _ _ _ =>
    exact Progress.OnlyErrors.report (p := { p.counted name with aborted := true }) h _ rfl
  | unknown _ _ _ _ _ => exact hcounted.report _ rfl
  | expanded _ _ _ _ _ => exact onlyErrors_expandInstance hcounted s.globals _

/-- What is found wrong with a name that is nested too deeply is an error. -/
theorem onlyErrors_refuseNamed (h : p.OnlyErrors) (name : String) :
    (refuseNamed s p name).OnlyErrors := by
  have hrefuses := refuses_refuseNamed s p name
  generalize refuseNamed s p name = q at hrefuses ⊢
  cases hrefuses with
  | idle _ => exact h
  | refused _ _ => exact Progress.OnlyErrors.report (p := p.erase name) h _ rfl

/-- Whatever is found wrong while a netlist is flattened is an error. -/
theorem onlyErrors_flatten (s : Setting) (root : Definition) :
    ∀ f ∈ (flatten s root).2, f.isError = true := by
  have hbegin : Progress.OnlyErrors ⟨start root, #[], 0, false, #[]⟩ := by
    intro f hf
    exact absurd hf (by simp)
  have hend := expandLevels_invariant (s := s) (Q := Progress.OnlyErrors)
    (fun _ name h => onlyErrors_expandNamed h name)
    (fun _ name h => onlyErrors_refuseNamed h name) (fun _ h => h) s.maxDepth
    (instanceNames root.elements) hbegin
  intro f hf
  exact hend f (Array.mem_toList_iff.1 hf)

end FlatNet.Expansion
