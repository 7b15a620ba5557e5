import FlatNet.Proofs.Expansion.Leaves

/-!
# The limits of expansion

The work queue is looked at step by step.  An instance in front of it is taken out of the circuit,
and what becomes of it, its `Fate`, depends on its depth, on the number of instances counted before
it and on whether its sub-circuit is there.  A step lowers the number of expansions that are left,
or else the length of the queue, so every run comes to its end, however the definitions contain each
other; and a run notes the instances that it has taken from the queue.

`flatten_within_limits` puts together what is known of this run and of what flattening reports.
-/

set_option autoImplicit false

namespace FlatNet

/-- The problem is one of an element that has been copied into a circuit. -/
def Problem.ofCopy : Problem → Bool
  | .unknownModel _ _ => true
  | .nameCollision _ => true
  | _ => false

/-- The finding says that there are too many expansions. -/
def Finding.isExpansionLimit (f : Finding) : Bool :=
  match f.problem with
  | .expansionLimit _ => true
  | _ => false

namespace Expansion

/-! ## The queue step by step -/

/-- What becomes of an instance that is taken from the queue. -/
inductive Fate where
  /-- It is nested too deeply. -/
  | refused
  /-- All expansions that are allowed have been used up. -/
  | exhausted
  /-- Its sub-circuit is not there. -/
  | unknown
  /-- It is replaced by the elements of its sub-circuit. -/
  | expanded (proto : Definition)

/-- An instance that is taken from the queue. -/
structure Visit where
  element : Element
  key : PrototypeKey
  depth : Nat
  fate : Fate

/-- A state of the work queue. -/
structure Work where
  progress : Progress
  /-- The names of the instances that wait, with their depths. -/
  queue : List (String × Nat)

/-- The queue before the first step. -/
def Work.initial (root : Definition) : Work :=
  ⟨begin root, (instanceNames root.elements).map fun name => (name, 1)⟩

/-- What becomes of an instance of a depth. -/
def Setting.fate (s : Setting) (p : Progress) (key : PrototypeKey) (depth : Nat) : Fate :=
  if s.maxDepth < depth then .refused
  else if s.maxExpansions < p.expansions + 1 then .exhausted
  else
    match s.prototype? key with
    | none => .unknown
    | some proto => .expanded proto

/-- The instance that a name in the queue stands for, if there is one. -/
def Setting.visit? (s : Setting) (p : Progress) (name : String) (depth : Nat) : Option Visit :=
  (p.circuit.elements[name]?).bind fun e =>
    e.prototype?.map fun key => ⟨e, key, depth, s.fate p key depth⟩

namespace Fate

/-- The instance is expanded. -/
def isExpanded : Fate → Bool
  | expanded _ => true
  | _ => false

/-- The instance is counted as an expansion, whatever comes of it. -/
def isCounted : Fate → Bool
  | refused => false
  | _ => true

/-- The expansion is given up. -/
def isExhausted : Fate → Bool
  | exhausted => true
  | _ => false

end Fate

namespace Visit

/-- What is reported of the instance itself. -/
def finding? (s : Setting) (v : Visit) : Option Finding :=
  match v.fate with
  | .refused => some (.usual (.depthLimit v.element.refDes s.maxDepth) (some v.element.origin))
  | .exhausted => some (.usual (.expansionLimit s.maxExpansions) (some v.element.origin))
  | .unknown =>
    some (.usual (.unknownSubcircuit v.element.refDes v.key.path) (some v.element.origin))
  | .expanded _ => none

/-- Deals with the instance, which has been taken out of the circuit. -/
def act (s : Setting) (v : Visit) (p : Progress) : Progress :=
  match v.fate with
  | .refused =>
    p.report (.usual (.depthLimit v.element.refDes s.maxDepth) (some v.element.origin))
  | .exhausted =>
    { p with expansions := p.expansions + 1, aborted := true }.report
      (.usual (.expansionLimit s.maxExpansions) (some v.element.origin))
  | .unknown =>
    { p with expansions := p.expansions + 1 }.report
      (.usual (.unknownSubcircuit v.element.refDes v.key.path) (some v.element.origin))
  | .expanded proto =>
    expandInstance s.globals ⟨v.element, proto⟩ { p with expansions := p.expansions + 1 }

end Visit

/-- One step takes a name from the queue.  If an instance stands under it, the instance is dealt
with, and what it brings in goes to the end of the queue, one deeper. -/
inductive Step (s : Setting) : Work → Option Visit → Work → Prop
  | skip {p : Progress} {name : String} {depth : Nat} {queue : List (String × Nat)}
      (hgoes : p.aborted = false) (hnone : s.visit? p name depth = none) :
      Step s ⟨p, (name, depth) :: queue⟩ none ⟨p, queue⟩
  | visit {p q : Progress} {name : String} {depth : Nat} {queue : List (String × Nat)} {v : Visit}
      (hgoes : p.aborted = false) (hvisit : s.visit? p name depth = some v)
      (hact : q = v.act s (p.cleared.erase name)) :
      Step s ⟨p, (name, depth) :: queue⟩ (some v)
        ⟨q.cleared, queue ++ q.next.toList.map fun found => (found, depth + 1)⟩

/-- A run goes on until the queue is empty or expansion has been given up, and notes the instances
that it takes from the queue. -/
inductive Runs (s : Setting) : Work → List Visit → Work → Prop
  | stop {a : Work} (hstop : a.progress.aborted = true ∨ a.queue = []) : Runs s a [] a
  | step {a b last : Work} {v : Option Visit} {visits : List Visit} (hstep : Step s a v b)
      (hrest : Runs s b visits last) : Runs s a (v.toList ++ visits) last

variable {s : Setting} {root : Definition} {p : Progress} {v : Visit} {a b last : Work}
  {visits : List Visit} {name : String} {depth : Nat}

/-- What a visit consists of. -/
theorem visit?_eq_some_iff :
    s.visit? p name depth = some v ↔
      p.circuit.elements[name]? = some v.element ∧ v.element.prototype? = some v.key ∧
        v.depth = depth ∧ v.fate = s.fate p v.key v.depth := by
  unfold Setting.visit?
  constructor
  · intro h
    obtain ⟨e, he, h⟩ := Option.bind_eq_some_iff.1 h
    obtain ⟨key, hkey, rfl⟩ := Option.map_eq_some_iff.1 h
    exact ⟨he, hkey, rfl, rfl⟩
  · rintro ⟨he, hkey, rfl, hfate⟩
    rw [he, Option.bind_some, hkey, Option.map_some, ← hfate]

/-- Where a name stands for no instance, nothing happens. -/
theorem named_of_visit?_eq_none (h : s.visit? p name depth = none) :
    expandNamed s p name = p ∧ refuseNamed s p name = p := by
  have hnone : (p.circuit.elements[name]?).bind Element.prototype? = none := by
    refine Option.bind_eq_none_iff.2 fun e he => ?_
    exact Option.map_eq_none_iff.1 (Option.bind_eq_none_iff.1 h e he)
  exact ⟨(Turn.idle hnone).eq, (Refuses.idle hnone).eq⟩

/-! ## Fates -/

/-- An instance is refused exactly if it is deeper than the limit. -/
theorem fate_eq_refused_iff {key : PrototypeKey} :
    s.fate p key depth = .refused ↔ s.maxDepth < depth := by
  unfold Setting.fate
  split
  · rename_i hdeep
    exact ⟨fun _ => hdeep, fun _ => rfl⟩
  · rename_i hdeep
    refine ⟨fun h => absurd h ?_, fun h => absurd h hdeep⟩
    split
    · simp
    · split <;> simp

/-- Expansion is given up where the number of expansions does not allow another one. -/
theorem of_isExhausted {key : PrototypeKey} (h : (s.fate p key depth).isExhausted = true) :
    s.maxExpansions < p.expansions + 1 := by
  unfold Setting.fate at h
  split at h
  · exact absurd h (by simp [Fate.isExhausted])
  · split at h
    · assumption
    · split at h <;> simp [Fate.isExhausted] at h

/-- An instance is counted only where its depth allows it, and, unless expansion is given up, only
where the number of expansions does. -/
theorem of_isCounted {key : PrototypeKey} (h : (s.fate p key depth).isCounted = true) :
    depth ≤ s.maxDepth ∧
      ((s.fate p key depth).isExhausted = false → p.expansions + 1 ≤ s.maxExpansions) := by
  unfold Setting.fate at h ⊢
  split at h
  · exact absurd h (by simp [Fate.isCounted])
  · rename_i hdepth
    refine ⟨Nat.not_lt.1 hdepth, ?_⟩
    rw [if_neg hdepth]
    split
    · simp [Fate.isExhausted]
    · rename_i hcount
      exact fun _ => Nat.not_lt.1 hcount

/-- An instance is expanded against its sub-circuit. -/
theorem prototype?_of_fate {key : PrototypeKey} {proto : Definition}
    (h : s.fate p key depth = .expanded proto) : s.prototype? key = some proto := by
  unfold Setting.fate at h
  split at h
  · exact absurd h (by simp)
  · split at h
    · exact absurd h (by simp)
    · cases hproto : s.prototype? key with
      | none => simp [hproto] at h
      | some found =>
        simp only [hproto, Fate.expanded.injEq] at h
        exact congrArg some h

/-- Only a sub-circuit that is not there is unknown. -/
theorem prototype?_eq_none_of_fate {key : PrototypeKey} (h : s.fate p key depth = .unknown) :
    s.prototype? key = none := by
  unfold Setting.fate at h
  split at h
  · exact absurd h (by simp)
  · split at h
    · exact absurd h (by simp)
    · cases hproto : s.prototype? key with
      | none => rfl
      | some found => simp [hproto] at h

/-- An instance that is expanded is counted, and expansion goes on. -/
theorem Fate.isCounted_of_isExpanded {f : Fate} (h : f.isExpanded = true) :
    f.isCounted = true ∧ f.isExhausted = false := by
  cases f with
  | expanded proto => exact ⟨rfl, rfl⟩
  | _ => exact absurd h (by simp [Fate.isExpanded])

/-- A name that is nested too deeply is refused. -/
theorem refuseNamed_of_visit? (h : s.visit? p name depth = some v) (hdeep : s.maxDepth < depth) :
    refuseNamed s p name = v.act s (p.erase name) := by
  obtain ⟨he, hkey, rfl, hfate⟩ := visit?_eq_some_iff.1 h
  rw [fate_eq_refused_iff.2 hdeep] at hfate
  rw [(Refuses.refused he hkey).eq]
  unfold Visit.act
  rw [hfate]

/-- A name that is not nested too deeply meets its fate in the expansion. -/
theorem expandNamed_of_visit? (h : s.visit? p name depth = some v) (hgoes : p.aborted = false)
    (hdepth : depth ≤ s.maxDepth) : expandNamed s p name = v.act s (p.erase name) := by
  obtain ⟨he, hkey, rfl, hfate⟩ := visit?_eq_some_iff.1 h
  have hroom := @of_isCounted s p v.depth v.key
  rw [← hfate] at hroom
  unfold Visit.act
  cases hf : v.fate with
  | refused => exact absurd (fate_eq_refused_iff.1 (hfate.symm.trans hf)) (Nat.not_lt.2 hdepth)
  | exhausted =>
    have hover := @of_isExhausted s p v.depth v.key
    rw [← hfate, hf] at hover
    exact (Turn.excess hgoes he hkey (hover rfl)).eq
  | unknown =>
    rw [hf] at hroom
    have hproto := prototype?_eq_none_of_fate (hfate.symm.trans hf)
    exact (Turn.unknown hgoes he hkey ((hroom rfl).2 rfl) hproto).eq
  | expanded proto =>
    rw [hf] at hroom
    have hproto := prototype?_of_fate (hfate.symm.trans hf)
    exact (Turn.expanded hgoes he hkey ((hroom rfl).2 rfl) hproto).eq

/-! ## What copies leave alone -/

/-- The findings that are not about copies. -/
def Progress.ownFindings (p : Progress) : List Finding :=
  p.findings.toList.filter fun f => !f.problem.ofCopy

/-- A finding is noted unless it is about a copy. -/
theorem ownFindings_report (p : Progress) (f : Finding) :
    (p.report f).ownFindings =
      p.ownFindings ++ if f.problem.ofCopy then [] else [f] := by
  unfold Progress.ownFindings Progress.report
  rw [Array.toList_push, List.filter_append]
  cases h : f.problem.ofCopy with
  | true => simp [h]
  | false => simp [h]

/-- What is found wrong with copies is about copies. -/
theorem ownFindings_addCopies (i : Instance) (cs : List (Element × Element)) (p : Progress) :
    (addCopies i cs p).ownFindings = p.ownFindings := by
  refine addCopies_invariant Progress.ownFindings (fun inner copied p q hjoins => ?_) cs p
  cases hjoins with
  | unbound _ | taken _ _ =>
    rw [ownFindings_report]
    exact List.append_nil _
  | inserted _ _ => rfl

/-- Copies do not count as expansions. -/
theorem expansions_addCopies (i : Instance) (cs : List (Element × Element)) (p : Progress) :
    (addCopies i cs p).expansions = p.expansions := by
  refine addCopies_invariant Progress.expansions (fun inner copied p q hjoins => ?_) cs p
  cases hjoins with
  | unbound _ | taken _ _ | inserted _ _ => rfl

/-- Copies do not end the expansion. -/
theorem aborted_addCopies (i : Instance) (cs : List (Element × Element)) (p : Progress) :
    (addCopies i cs p).aborted = p.aborted := by
  refine addCopies_invariant Progress.aborted (fun inner copied p q hjoins => ?_) cs p
  cases hjoins with
  | unbound _ | taken _ _ | inserted _ _ => rfl

/-- An expansion is counted before the instance is expanded, not by that. -/
theorem expansions_expandInstance (g : Globals) (i : Instance) (p : Progress) :
    (expandInstance g i p).expansions = p.expansions := by
  rw [expandInstance_eq]
  exact expansions_addCopies i _ p

/-- Expanding an instance does not end the expansion. -/
theorem aborted_expandInstance (g : Globals) (i : Instance) (p : Progress) :
    (expandInstance g i p).aborted = p.aborted := by
  rw [expandInstance_eq]
  exact aborted_addCopies i _ p

/-- What is found wrong when an instance is expanded is about its copies. -/
theorem ownFindings_expandInstance (g : Globals) (i : Instance) (p : Progress) :
    (expandInstance g i p).ownFindings = p.ownFindings := by
  rw [expandInstance_eq]
  exact ownFindings_addCopies i _ p

/-- A visit reports what belongs to its fate. -/
theorem ownFindings_act (v : Visit) (p : Progress) :
    (v.act s p).ownFindings = p.ownFindings ++ (v.finding? s).toList := by
  unfold Visit.act Visit.finding?
  cases v.fate with
  | refused => exact ownFindings_report p _
  | exhausted => exact ownFindings_report { p with expansions := _, aborted := true } _
  | unknown => exact ownFindings_report { p with expansions := _ } _
  | expanded proto =>
    dsimp only
    rw [ownFindings_expandInstance]
    exact (List.append_nil _).symm

/-- Dealing with an instance counts one expansion, if its fate is counted. -/
theorem expansions_act (v : Visit) (p : Progress) :
    (v.act s p).expansions = p.expansions + if v.fate.isCounted then 1 else 0 := by
  unfold Visit.act
  cases v.fate with
  | expanded proto => exact expansions_expandInstance _ _ _
  | _ => rfl

/-- Dealing with an instance ends the expansion if its fate is to exhaust it. -/
theorem aborted_act (v : Visit) (p : Progress) :
    (v.act s p).aborted = (p.aborted || v.fate.isExhausted) := by
  unfold Visit.act
  cases v.fate with
  | exhausted => exact (Bool.or_true p.aborted).symm
  | expanded proto => exact (aborted_expandInstance _ _ _).trans (Bool.or_false p.aborted).symm
  | _ => exact (Bool.or_false p.aborted).symm

/-- Only an instance that is expanded brings something in. -/
theorem next_act (h : v.fate.isExpanded = false) (p : Progress) :
    (v.act s p).next = p.next := by
  unfold Visit.act
  cases hf : v.fate with
  | expanded proto => exact absurd h (by simp [hf, Fate.isExpanded])
  | _ => rfl

/-! ## Every run ends -/

/-- The expansions that are left, and then the length of the queue. -/
def Work.measure (s : Setting) (a : Work) : Nat × Nat :=
  (s.maxExpansions - a.progress.expansions, a.queue.length)

/-- A step leaves fewer expansions, or as many and a shorter queue. -/
theorem Step.measure_lt {v : Option Visit} (h : Step s a v b) :
    Prod.Lex (· < ·) (· < ·) (b.measure s) (a.measure s) := by
  rw [Prod.lex_def]
  cases h with
  | skip _ _ => exact .inr ⟨rfl, Nat.lt_succ_self _⟩
  | @visit p q name depth queue v _ hvisit hact =>
    obtain ⟨-, -, -, hfate⟩ := visit?_eq_some_iff.1 hvisit
    have hcount : q.expansions = p.expansions + if v.fate.isCounted then 1 else 0 := by
      rw [hact]
      exact expansions_act v _
    show s.maxExpansions - q.expansions < s.maxExpansions - p.expansions ∨
      s.maxExpansions - q.expansions = s.maxExpansions - p.expansions ∧
        (queue ++ q.next.toList.map _).length < queue.length + 1
    cases hexp : v.fate.isExpanded with
    | true =>
      obtain ⟨hcounted, hgoes⟩ := Fate.isCounted_of_isExpanded hexp
      have hroom := (of_isCounted (hfate ▸ hcounted)).2 (hfate ▸ hgoes)
      rw [hcounted, if_pos rfl] at hcount
      omega
    | false =>
      -- nothing is brought in, so the queue is shorter
      have hnext : q.next = #[] := by
        rw [hact]
        exact next_act hexp _
      have hlength : (queue ++ q.next.toList.map fun found => (found, depth + 1)).length =
          queue.length := by
        rw [hnext, List.map_nil, List.append_nil]
      omega

/-- No queue is worked off forever. -/
theorem wellFounded_step (s : Setting) : WellFounded fun b a => ∃ v, Step s a v b :=
  Subrelation.wf (fun ⟨_, h⟩ => h.measure_lt)
    (InvImage.wf (Work.measure s) (Prod.lex Nat.lt_wfRel Nat.lt_wfRel).wf)

/-- Unless a run is over, there is a step. -/
theorem exists_step (a : Work) :
    (a.progress.aborted = true ∨ a.queue = []) ∨ ∃ v b, Step s a v b := by
  obtain ⟨p, queue⟩ := a
  by_cases haborted : p.aborted = true
  · exact .inl (.inl haborted)
  · have hgoes := Bool.eq_false_iff.2 haborted
    cases queue with
    | nil => exact .inl (.inr rfl)
    | cons entry rest =>
      obtain ⟨name, depth⟩ := entry
      right
      cases hvisit : s.visit? p name depth with
      | none => exact ⟨_, _, .skip hgoes hvisit⟩
      | some v => exact ⟨_, _, .visit hgoes hvisit rfl⟩

/-- Every run comes to its end. -/
theorem exists_runs (s : Setting) (a : Work) : ∃ visits last, Runs s a visits last := by
  induction a using (wellFounded_step s).induction with
  | h a ih =>
    rcases exists_step (s := s) a with hstop | ⟨v, b, hstep⟩
    · exact ⟨_, _, .stop hstop⟩
    · obtain ⟨visits, last, hrest⟩ := ih b ⟨v, hstep⟩
      exact ⟨_, _, .step hstep hrest⟩

/-- A step is determined by the state before it. -/
theorem Step.unique {v v' : Option Visit} {b' : Work} (h : Step s a v b) (h' : Step s a v' b') :
    v = v' ∧ b = b' := by
  cases h with
  | skip _ hnone =>
    cases h' with
    | skip _ _ => exact ⟨rfl, rfl⟩
    | visit _ hvisit _ => exact absurd (hnone.symm.trans hvisit) (by simp)
  | visit _ hvisit hact =>
    cases h' with
    | skip _ hnone => exact absurd (hnone.symm.trans hvisit) (by simp)
    | visit _ hvisit' hact' =>
      obtain rfl := Option.some.inj (hvisit.symm.trans hvisit')
      rw [hact, hact']
      exact ⟨rfl, rfl⟩

/-- A step is made only while expansion goes on and the queue is not empty. -/
theorem Step.goes {v : Option Visit} (h : Step s a v b) :
    ¬(a.progress.aborted = true ∨ a.queue = []) := by
  cases h with
  | skip hgoes _ => simp [hgoes]
  | visit hgoes _ _ => simp [hgoes]

/-- There is one run from a state. -/
theorem Runs.unique {visits' : List Visit} {last' : Work} (h : Runs s a visits last)
    (h' : Runs s a visits' last') : visits = visits' ∧ last = last' := by
  induction h generalizing visits' last' with
  | stop hstop =>
    cases h' with
    | stop _ => exact ⟨rfl, rfl⟩
    | step hstep _ => exact absurd hstop hstep.goes
  | step hstep _ ih =>
    cases h' with
    | stop hstop => exact absurd hstop hstep.goes
    | step hstep' hrest' =>
      obtain ⟨rfl, rfl⟩ := hstep.unique hstep'
      obtain ⟨rfl, rfl⟩ := ih hrest'
      exact ⟨rfl, rfl⟩

/-- Nothing happens after expansion has been given up. -/
theorem Runs.eq_nil_of_aborted (h : Runs s a visits last) (haborted : a.progress.aborted = true) :
    visits = [] ∧ last = a :=
  h.unique (.stop (.inl haborted))

/-- A run is the one by which the queue is worked off. -/
theorem Runs.drains (h : Runs s a visits last) (hnext : a.progress.next = #[]) :
    Drains s a.progress a.queue last.progress := by
  induction h with
  | @stop a hstop =>
    rcases hstop with haborted | hnil
    · exact .aborted haborted
    · rw [hnil]
      exact .done
  | step hstep _ ih =>
    cases hstep with
    | @skip p name depth queue hgoes hnone =>
      obtain ⟨hexpand, hrefuse⟩ := named_of_visit?_eq_none hnone
      have hrest := ih hnext
      rcases Nat.lt_or_ge s.maxDepth depth with hdeep | hdepth
      · exact .refuse hgoes hdeep (by rwa [hrefuse])
      · refine .expand hgoes hdepth ?_
        have hcleared : p.cleared = p := by
          unfold Progress.cleared
          rw [← hnext]
        rw [hexpand, hcleared, hnext, List.map_nil, List.append_nil]
        exact hrest
    | @visit p q name depth queue v hgoes hvisit hact =>
      have hcleared : p.cleared = p := by
        unfold Progress.cleared
        rw [← hnext]
      rw [hcleared] at hact
      have hrest := ih rfl
      rcases Nat.lt_or_ge s.maxDepth depth with hdeep | hdepth
      · refine .refuse hgoes hdeep ?_
        have hrefuse := refuseNamed_of_visit? hvisit hdeep
        rw [← hact] at hrefuse
        -- a refused instance brings nothing in
        have hnone : q.next = #[] := by
          obtain ⟨-, -, rfl, hfate⟩ := visit?_eq_some_iff.1 hvisit
          rw [fate_eq_refused_iff.2 hdeep] at hfate
          rw [hact, next_act (by rw [hfate]; rfl)]
          exact hnext
        have hsame : q.cleared = q := by
          unfold Progress.cleared
          rw [← hnone]
        rw [hnone, hsame, List.map_nil, List.append_nil] at hrest
        rwa [hrefuse]
      · refine .expand hgoes hdepth ?_
        rw [expandNamed_of_visit? hvisit hgoes hdepth, ← hact]
        exact hrest

/-! ## What a run respects -/

/-- A run reports of the instances in its queue what belongs to their fates, in order. -/
theorem Runs.ownFindings (h : Runs s a visits last) :
    last.progress.ownFindings =
      a.progress.ownFindings ++ visits.filterMap (Visit.finding? s) := by
  induction h with
  | stop _ => exact (List.append_nil _).symm
  | step hstep _ ih =>
    cases hstep with
    | skip _ _ => exact ih
    | @visit p q name depth queue v _ _ hact =>
      have hsame : q.ownFindings = p.ownFindings ++ (v.finding? s).toList := by
        rw [hact]
        exact ownFindings_act v _
      rw [ih, Option.toList_some, List.singleton_append]
      show q.ownFindings ++ _ = _
      rw [hsame, List.append_assoc, List.filterMap_cons]
      cases v.finding? s <;> rfl

/-- Every instance taken from the queue stood under a name of the queue. -/
theorem Runs.visit? (h : Runs s a visits last) :
    ∀ v ∈ visits, ∃ p name, s.visit? p name v.depth = some v := by
  induction h with
  | stop _ => exact List.forall_mem_nil _
  | step hstep _ ih =>
    cases hstep with
    | skip _ _ => exact ih
    | @visit p q name depth queue v _ hvisit _ =>
      intro u hu
      rcases List.mem_cons.1 hu with rfl | hu
      · obtain ⟨-, -, rfl, -⟩ := visit?_eq_some_iff.1 hvisit
        exact ⟨p, name, hvisit⟩
      · exact ih u hu

/-- Every instance taken from the queue met the fate of its depth. -/
theorem Runs.fate (h : Runs s a visits last) :
    ∀ v ∈ visits, ∃ p, v.fate = s.fate p v.key v.depth := by
  intro v hv
  obtain ⟨p, name, hvisit⟩ := h.visit? v hv
  exact ⟨p, (visit?_eq_some_iff.1 hvisit).2.2.2⟩

/-- No more instances are expanded than are allowed. -/
theorem Runs.expansions_le (h : Runs s a visits last)
    (ha : a.progress.expansions ≤ s.maxExpansions) :
    a.progress.expansions + visits.countP (fun v => v.fate.isExpanded) ≤ s.maxExpansions := by
  induction h with
  | stop _ => exact ha
  | step hstep hrest ih =>
    cases hstep with
    | skip _ _ => exact ih ha
    | @visit p q name depth queue v _ hvisit hact =>
      obtain ⟨-, -, -, hfate⟩ := visit?_eq_some_iff.1 hvisit
      have hcount : q.expansions = p.expansions + if v.fate.isCounted then 1 else 0 := by
        rw [hact]
        exact expansions_act v _
      change p.expansions ≤ _ at ha
      change q.expansions ≤ _ → q.expansions + _ ≤ _ at ih
      rw [Option.toList_some, List.singleton_append, List.countP_cons]
      show p.expansions + _ ≤ _
      cases hexhausted : v.fate.isExhausted with
      | true =>
        have haborted : q.aborted = true := by
          rw [hact, aborted_act, hexhausted, Bool.or_true]
        have hnot : v.fate.isExpanded = false := by
          cases hf : v.fate with
          | expanded proto => exact absurd hexhausted (by simp [hf, Fate.isExhausted])
          | _ => rfl
        rw [(hrest.eq_nil_of_aborted haborted).1, hnot]
        exact ha
      | false =>
        cases hcounted : v.fate.isCounted with
        | true =>
          have hroom := (of_isCounted (hfate ▸ hcounted)).2 (hfate ▸ hexhausted)
          rw [hcounted, if_pos rfl] at hcount
          have hall := ih (by omega)
          split <;> omega
        | false =>
          have hnot : v.fate.isExpanded = false := by
            refine Bool.eq_false_iff.2 fun hexp => ?_
            rw [(Fate.isCounted_of_isExpanded hexp).1] at hcounted
            exact absurd hcounted (by simp)
          rw [hcounted, if_neg Bool.false_ne_true, Nat.add_zero] at hcount
          have hall := ih (by omega)
          rw [hnot, if_neg Bool.false_ne_true]
          omega

/-- It is reported once at most that there are too many expansions. -/
theorem Runs.expansionLimit_le_one (h : Runs s a visits last) :
    (visits.filterMap (Visit.finding? s)).countP Finding.isExpansionLimit ≤ 1 := by
  induction h with
  | stop _ => exact Nat.zero_le 1
  | step hstep hrest ih =>
    cases hstep with
    | skip _ _ => exact ih
    | @visit p q name depth queue v _ _ hact =>
      rw [Option.toList_some, List.singleton_append, List.filterMap_cons]
      unfold Visit.finding? at ih ⊢
      cases hf : v.fate with
      | refused => exact ih
      | exhausted =>
        -- this is the end of the run
        have haborted : q.aborted = true := by
          rw [hact, aborted_act, hf]
          exact Bool.or_true _
        rw [(hrest.eq_nil_of_aborted haborted).1]
        exact Nat.le_refl 1
      | unknown => exact ih
      | expanded proto => exact ih

/-- Unless the expansions are exhausted, the whole queue is worked off. -/
theorem Runs.queue_eq_nil (h : Runs s a visits last) (hgoes : a.progress.aborted = false)
    (hroom : ∀ v ∈ visits, v.fate.isExhausted = false) : last.queue = [] := by
  induction h with
  | stop hstop =>
    rcases hstop with haborted | hnil
    · exact absurd haborted (by simp [hgoes])
    · exact hnil
  | step hstep _ ih =>
    cases hstep with
    | skip _ _ => exact ih hgoes hroom
    | @visit p q name depth queue v _ _ hact =>
      refine ih ?_ fun u hu => hroom u (List.mem_cons_of_mem v hu)
      show q.aborted = false
      rw [hact, aborted_act, hroom v List.mem_cons_self, Bool.or_false]
      exact hgoes

/-! ## Depths -/

/-- A place in the tree of a netlist, however deep. -/
inductive Setting.Place (s : Setting) (root : Definition) : Occurrence → Prop
  | top {o : Occurrence} (htop : o ∈ tops root) : Place s root o
  | inside {o c : Occurrence} (ho : Place s root o) (hc : c ∈ s.inside o) : Place s root c

/-- The element stands at a place of the tree that has a depth. -/
def Setting.StandsAt (s : Setting) (root : Definition) (e : Element) (depth : Nat) : Prop :=
  ∃ o, s.Place root o ∧ o.outer = e ∧ o.path.length = depth

/-- Every name in a queue stands for one element, which is at the depth noted with the name. -/
structure Tagged (s : Setting) (root : Definition) (p : Progress)
    (queue : List (String × Nat)) : Prop where
  keyed : Keyed p.circuit.elements
  nodup : (queue.map Prod.fst).Nodup
  places : ∀ entry ∈ queue, ∃ e, p.circuit.elements[entry.1]? = some e ∧
    s.StandsAt root e entry.2

/-- What has been found for the next level waits behind the rest of the queue. -/
def Progress.behindQueue (p : Progress) (queue : List (String × Nat)) (depth : Nat) :
    List (String × Nat) :=
  queue ++ p.next.toList.map fun found => (found, depth)

/-- At the beginning the queue names the elements of the netlist, at the lowest depth. -/
theorem tagged_initial (hkeyed : Keyed root.elements) :
    Tagged s root (begin root) (Work.initial root).queue where
  keyed := hkeyed
  nodup := by
    have hnames : (Work.initial root).queue.map Prod.fst = instanceNames root.elements := by
      rw [Work.initial, List.map_map]
      exact List.map_id _
    have hsub : List.Sublist (instanceNames root.elements)
        (root.elements.toList.map Prod.fst) := by
      have hall : root.elements.toList.map Prod.fst = root.elements.values.map Element.refDes := by
        rw [NameMap.values_eq_map_toList, List.map_map]
        refine List.map_congr_left fun entry hentry => ?_
        obtain ⟨name, e⟩ := entry
        exact (hkeyed name e (Std.ExtTreeMap.mem_toList_iff_getElem?_eq_some.1 hentry)).symm
      rw [hall]
      exact List.filter_sublist.map _
    rw [hnames]
    exact (NameMap.nodup_map_fst_toList root.elements).sublist hsub
  places := by
    intro entry hentry
    obtain ⟨name, hname, rfl⟩ := List.mem_map.1 hentry
    obtain ⟨e, he, rfl⟩ := List.mem_map.1 hname
    have hmem := List.mem_of_mem_filter he
    exact ⟨e, hkeyed.getElem?_refDes hmem, ⟨[], e, e⟩, .top (List.mem_map_of_mem hmem), rfl, rfl⟩

namespace Tagged

variable {queue : List (String × Nat)}

/-- The rest of a queue stays tagged when the first instance is taken out. -/
theorem erase (h : Tagged s root p ((name, depth) :: queue)) :
    Tagged s root (p.erase name) queue where
  keyed := h.keyed.erase name
  nodup := (List.nodup_cons.1 h.nodup).2
  places := by
    intro entry hentry
    obtain ⟨e, he, hplace⟩ := h.places entry (List.mem_cons_of_mem _ hentry)
    have hne : name ≠ entry.1 := by
      intro heq
      have hnot : name ∉ queue.map Prod.fst := (List.nodup_cons.1 h.nodup).1
      exact hnot (List.mem_map.2 ⟨entry, hentry, heq.symm⟩)
    refine ⟨e, ?_, hplace⟩
    show (p.circuit.elements.erase name)[entry.1]? = some e
    rw [Std.ExtTreeMap.getElem?_erase, if_neg]
    · exact he
    · exact fun heq => hne (Std.LawfulEqCmp.compare_eq_iff_eq.1 heq)

/-- A new element leaves the queue tagged; if it is an instance, it waits at its own depth. -/
theorem insert {e : Element} (h : Tagged s root p (p.behindQueue queue depth))
    (hfresh : p.circuit.elements[e.refDes]? = none) (hplace : s.StandsAt root e depth) :
    Tagged s root (p.insert e) ((p.insert e).behindQueue queue depth) := by
  have hkept : ∀ entry ∈ p.behindQueue queue depth, e.refDes ≠ entry.1 := by
    intro entry hentry heq
    obtain ⟨other, hother, -⟩ := h.places entry hentry
    rw [← heq, hfresh] at hother
    exact absurd hother (by simp)
  have hfound : ∀ entry ∈ p.behindQueue queue depth,
      ∃ e', (p.insert e).circuit.elements[entry.1]? = some e' ∧
        s.StandsAt root e' entry.2 := by
    intro entry hentry
    obtain ⟨other, hother, hstands⟩ := h.places entry hentry
    refine ⟨other, ?_, hstands⟩
    show (p.circuit.elements.insert e.refDes e)[entry.1]? = some other
    rw [NameMap.getElem?_insert_of_ne (hkept entry hentry)]
    exact hother
  cases hinst : e.prototype?.isSome with
  | false =>
    have hqueue : (p.insert e).behindQueue queue depth = p.behindQueue queue depth := by
      simp [Progress.behindQueue, Progress.insert, hinst]
    rw [hqueue]
    exact ⟨h.keyed.insert e, h.nodup, hfound⟩
  | true =>
    have hqueue : (p.insert e).behindQueue queue depth =
        p.behindQueue queue depth ++ [(e.refDes, depth)] := by
      simp [Progress.behindQueue, Progress.insert, hinst]
    rw [hqueue]
    refine ⟨h.keyed.insert e, ?_, ?_⟩
    · rw [List.map_append, List.map_singleton]
      refine List.Nodup.append h.nodup (List.nodup_singleton _) ?_
      rw [List.disjoint_singleton]
      intro hmem
      obtain ⟨entry, hentry, heq⟩ := List.mem_map.1 hmem
      exact hkept entry hentry heq.symm
    · intro entry hentry
      rcases List.mem_append.1 hentry with hold | hlast
      · exact hfound entry hold
      · obtain rfl := List.mem_singleton.1 hlast
        exact ⟨e, by simp [Progress.insert], hplace⟩

/-- Copies of elements of an instance are one deeper than the instance. -/
theorem addCopies {i : Instance} {cs : List (Element × Element)}
    (h : Tagged s root p (p.behindQueue queue depth))
    (hcs : ∀ c ∈ cs, s.StandsAt root c.2 depth) :
    Tagged s root (addCopies i cs p) ((Expansion.addCopies i cs p).behindQueue queue depth) := by
  refine addCopies_keeps (Q := fun q => Tagged s root q (q.behindQueue queue depth))
    (fun c hc p q hjoins hp => ?_) h
  cases hjoins with
  | unbound _ | taken _ _ => exact ⟨hp.keyed, hp.nodup, hp.places⟩
  | inserted _ hfree => exact hp.insert hfree (hcs c hc)

/-- An instance in front of a tagged queue is at its depth, and the queue behind it is tagged when
the instance has been dealt with. -/
theorem act (h : Tagged s root p ((name, depth) :: queue))
    (hvisit : s.visit? p name depth = some v) :
    s.StandsAt root v.element v.depth ∧
      Tagged s root (v.act s (p.cleared.erase name))
        ((v.act s (p.cleared.erase name)).behindQueue queue (depth + 1)) := by
  obtain ⟨he, hkey, rfl, hfate⟩ := visit?_eq_some_iff.1 hvisit
  obtain ⟨e, hfound, hstands⟩ := h.places (name, v.depth) List.mem_cons_self
  obtain rfl : v.element = e := Option.some.inj (he.symm.trans hfound)
  refine ⟨hstands, ?_⟩
  have hrest : Tagged s root (p.cleared.erase name)
      ((p.cleared.erase name).behindQueue queue (v.depth + 1)) := by
    have hnil : (p.cleared.erase name).behindQueue queue (v.depth + 1) = queue :=
      List.append_nil _
    have herased := h.erase
    rw [hnil]
    exact ⟨herased.keyed, herased.nodup, herased.places⟩
  unfold Visit.act
  cases hf : v.fate with
  | refused => exact ⟨hrest.keyed, hrest.nodup, hrest.places⟩
  | exhausted => exact ⟨hrest.keyed, hrest.nodup, hrest.places⟩
  | unknown => exact ⟨hrest.keyed, hrest.nodup, hrest.places⟩
  | expanded proto =>
    have hproto := prototype?_of_fate (hfate.symm.trans hf)
    obtain ⟨o, ho, houter, hlength⟩ := hstands
    have hinst : s.instance? o.outer = some ⟨v.element, proto⟩ :=
      Setting.instance?_eq_some_iff.2 ⟨houter.symm, v.key, houter ▸ hkey, hproto⟩
    have hcounted : Tagged s root { p.cleared.erase name with expansions := p.expansions + 1 }
        (Progress.behindQueue { p.cleared.erase name with expansions := p.expansions + 1 } queue
          (v.depth + 1)) := ⟨hrest.keyed, hrest.nodup, hrest.places⟩
    have hinside : ∀ c ∈ Instance.copies ⟨v.element, proto⟩ s.globals,
        s.StandsAt root c.2 (v.depth + 1) := by
      intro c hc
      refine ⟨⟨o.path, c.1, c.2⟩, .inside ho ?_, rfl, ?_⟩
      · rw [Setting.inside_of_instance? hinst]
        exact List.mem_map_of_mem hc
      · show o.path.length + 1 = v.depth + 1
        rw [hlength]
    have hcopies := hcounted.addCopies (i := ⟨v.element, proto⟩) hinside
    dsimp only
    rw [expandInstance_eq]
    exact ⟨hcopies.keyed, hcopies.nodup, hcopies.places⟩

end Tagged

/-- In a run from a tagged queue every instance that is taken from the queue is at its depth. -/
theorem Runs.standsAt (h : Runs s a visits last) (ha : Tagged s root a.progress a.queue) :
    ∀ v ∈ visits, s.StandsAt root v.element v.depth := by
  induction h with
  | stop _ => exact List.forall_mem_nil _
  | step hstep _ ih =>
    cases hstep with
    | skip _ _ =>
      exact ih ⟨ha.keyed, (List.nodup_cons.1 ha.nodup).2,
        fun entry hentry => ha.places entry (List.mem_cons_of_mem _ hentry)⟩
    | visit _ hvisit hact =>
      obtain ⟨hstands, hrest⟩ := Tagged.act ha hvisit
      rw [← hact] at hrest
      intro u hu
      rcases List.mem_cons.1 hu with rfl | hu
      · exact hstands
      · exact ih ⟨hrest.keyed, hrest.nodup, hrest.places⟩ u hu

end Expansion

namespace Workspace

open Expansion

variable {w : Workspace} {visits : List Visit} {last : Work}

/-- A netlist is flattened by the run from its queue: the elements are those that the run leaves in
the circuit, as far as they are primitive, and the findings are those of the run. -/
theorem flatten_of_runs (h : Runs w.expansionSetting (Work.initial w.netlist) visits last) :
    w.flatten.2.elements =
        last.progress.circuit.elements.filter (fun _ e => e.primitive?.isSome) ∧
      w.expansionFindings = last.progress.findings.toList := by
  have hdrains := h.drains rfl
  unfold netlist at hdrains
  unfold flatten expansionFindings
  cases hroot : w.forest[""]? with
  | none =>
    rw [hroot] at hdrains
    have hdone : last.progress = begin default := hdrains.unique .done
    rw [hdone]
    exact ⟨rfl, rfl⟩
  | some root =>
    rw [hroot] at hdrains
    obtain ⟨p, hp, helements, -, hlist⟩ := drains_flatten w.expansionSetting root
    obtain rfl := hp.unique hdrains
    exact ⟨helements, hlist⟩

/-- But for those about copies, the findings are those of the instances taken from the queue. -/
theorem ownFindings_of_runs (h : Runs w.expansionSetting (Work.initial w.netlist) visits last) :
    w.expansionFindings.filter (fun f => !f.problem.ofCopy) =
      visits.filterMap (Visit.finding? w.expansionSetting) := by
  have hfindings := h.ownFindings
  have hnone : (Work.initial w.netlist).progress.ownFindings = [] := rfl
  rw [hnone, List.nil_append] at hfindings
  rw [(flatten_of_runs h).2]
  exact hfindings

/-- The limit of expansions is reported once at most. -/
theorem countP_isExpansionLimit_le_one
    (h : Runs w.expansionSetting (Work.initial w.netlist) visits last) :
    w.expansionFindings.countP Finding.isExpansionLimit ≤ 1 := by
  have hrun := h.expansionLimit_le_one
  rw [← ownFindings_of_runs h, List.countP_filter] at hrun
  have hsame : (fun f : Finding => f.isExpansionLimit && !f.problem.ofCopy) =
      Finding.isExpansionLimit := by
    funext f
    unfold Finding.isExpansionLimit Problem.ofCopy
    cases f.problem <;> rfl
  rwa [hsame] at hrun

/-- Flattening ends and respects its limits.  Whatever the definitions and the limits are, no queue
is worked off forever, and there is one run from the queue of the netlist.  The flat circuit has the
elements that this run leaves, all of them primitive, and the findings that are not about copies are
those of the instances that the run has taken from the queue, in order.  No more of them are
expanded than are allowed; exactly those that are nested too deeply are refused; it is reported once
at most that the expansions are used up, and unless they are, the whole queue is worked off.  If the
elements of the netlist are found under their own names, the depth of an instance is that of its
place in the tree of the netlist. -/
theorem flatten_within_limits (w : Workspace) :
    (WellFounded fun b a => ∃ v, Step w.expansionSetting a v b) ∧
      ∃ visits last, Runs w.expansionSetting (Work.initial w.netlist) visits last ∧
        (∀ visits' last', Runs w.expansionSetting (Work.initial w.netlist) visits' last' →
          visits' = visits ∧ last' = last) ∧
        w.flatten.2.elements =
          last.progress.circuit.elements.filter (fun _ e => e.primitive?.isSome) ∧
        (∀ e ∈ w.flatten.2.elements.values, e.primitive?.isSome = true) ∧
        w.expansionFindings.filter (fun f => !f.problem.ofCopy) =
          visits.filterMap (Visit.finding? w.expansionSetting) ∧
        visits.countP (fun v => v.fate.isExpanded) ≤ w.settings.maxExpansions ∧
        (∀ v ∈ visits, v.fate.isExpanded = true → v.depth ≤ w.settings.maxDepth) ∧
        (∀ v ∈ visits, v.fate = .refused ↔ w.settings.maxDepth < v.depth) ∧
        w.expansionFindings.countP Finding.isExpansionLimit ≤ 1 ∧
        ((∀ v ∈ visits, v.fate.isExhausted = false) → last.queue = []) ∧
        (Keyed w.netlist.elements →
          ∀ v ∈ visits, w.expansionSetting.StandsAt w.netlist v.element v.depth) := by
  obtain ⟨visits, last, hruns⟩ := exists_runs w.expansionSetting (Work.initial w.netlist)
  have helements := (flatten_of_runs hruns).1
  have hfindings := ownFindings_of_runs hruns
  have hprimitive : ∀ e ∈ w.flatten.2.elements.values, e.primitive?.isSome = true := by
    intro e he
    rw [helements] at he
    obtain ⟨name, hname⟩ := NameMap.mem_values.1 he
    rw [Std.ExtTreeMap.getElem?_filter'] at hname
    exact (Option.filter_eq_some_iff.1 hname).2
  have hcount := hruns.expansions_le (Nat.zero_le _)
  rw [show (Work.initial w.netlist).progress.expansions = 0 from rfl, Nat.zero_add] at hcount
  refine ⟨wellFounded_step _, visits, last, hruns,
    fun visits' last' h' => h'.unique hruns, helements, hprimitive, hfindings, hcount, ?_, ?_,
    countP_isExpansionLimit_le_one hruns, hruns.queue_eq_nil rfl,
    fun hkeyed => hruns.standsAt (tagged_initial hkeyed)⟩
  · intro v hv hexp
    obtain ⟨p, hfate⟩ := hruns.fate v hv
    have hcounted := (Fate.isCounted_of_isExpanded hexp).1
    rw [hfate] at hcounted
    exact (of_isCounted hcounted).1
  · intro v hv
    obtain ⟨p, hfate⟩ := hruns.fate v hv
    rw [hfate]
    exact fate_eq_refused_iff

/-- A netlist whose sub-circuit contains itself, read and resolved. -/
def endless : Workspace :=
  ((withBuiltin { maxDepth := 3 } Library.empty).readNetlist Disk.empty "endless.cir"
    "t\n.subckt loop a b\nR1 a b 1\nX1 a b loop\n.ends\nX1 1 0 loop\n.end\n").resolve.1

set_option maxRecDepth 100000 in
/-- Of the endless netlist three instances are expanded and the fourth one is refused. -/
theorem flatten_within_limits_endless :
    Keyed endless.netlist.elements ∧
      endless.expansionFindings.map Finding.problem = [.depthLimit "X1_X1_X1_X1" 3] ∧
      ∃ visits last, Runs endless.expansionSetting (Work.initial endless.netlist) visits last ∧
        ∀ v ∈ visits, endless.expansionSetting.StandsAt endless.netlist v.element v.depth := by
  have hregular := (regular_withBuiltin { maxDepth := 3 } Library.regular_empty).readNetlist
    Disk.empty "endless.cir"
    "t\n.subckt loop a b\nR1 a b 1\nX1 a b loop\n.ends\nX1 1 0 loop\n.end\n"
  have hkeyed : Keyed endless.netlist.elements := by
    have hroots := keyed_resolve fun root hroot => (hregular.forest "" root hroot).keyed
    unfold netlist
    cases hroot : endless.forest[""]? with
    | none => exact .empty
    | some root => exact hroots root hroot
  have hfindings :
      endless.expansionFindings.map Finding.problem = [.depthLimit "X1_X1_X1_X1" 3] := by
    decide +kernel
  obtain ⟨-, visits, last, hruns, -, -, -, -, -, -, -, -, -, hplaces⟩ :=
    flatten_within_limits endless
  exact ⟨hkeyed, hfindings, visits, last, hruns, hplaces hkeyed⟩

end Workspace

end FlatNet
