import FlatNet.Proofs.Verdict

/-!
# Compiling a netlist once more

When a netlist is compiled again, every library file that its lines lead to has been noted as
compiled, so nothing is loaded: the second run meets the definitions that the first one has left
behind.  A file that cannot be read has been noted as well, and so the second run does not report
it.  `Again` relates the two runs while they are read; as in the first run files are noted one after
the other, what it says of the second one depends on their all being noted in the end.
-/

set_option autoImplicit false

namespace FlatNet

/-- A library file could not be read. -/
def Problem.isUnreadable : Problem → Bool
  | .libraryUnreadable _ _ => true
  | _ => false

/-- The finding is that a library file could not be read. -/
def Finding.isUnreadable (f : Finding) : Bool := f.problem.isUnreadable

/-- Only problems with references are about files that could not be read. -/
theorem Finding.isUnreadable_of_problemClass {f : Finding}
    (h : f.problem.problemClass ≠ .reference) : f.isUnreadable = false := by
  unfold isUnreadable Problem.isUnreadable
  split
  · rename_i heq
    rw [heq] at h
    exact absurd rfl h
  · rfl

/-- What has been found apart from files that could not be read. -/
def readable (findings : List Finding) : List Finding := findings.filter fun f => !f.isUnreadable

/-- What has been found in two parts, apart from unreadable files. -/
theorem readable_append (fs fs' : List Finding) :
    readable (fs ++ fs') = readable fs ++ readable fs' := List.filter_append _ _

/-- A finding that is about no unreadable file is kept. -/
theorem readable_singleton {f : Finding} (h : f.isUnreadable = false) : readable [f] = [f] :=
  List.filter_cons_of_pos (by rw [h]; rfl)

/-- Nothing is left out exactly if no finding is about an unreadable file. -/
theorem readable_eq_self_iff {fs : List Finding} :
    readable fs = fs ↔ ∀ f ∈ fs, f.isUnreadable = false := by
  unfold readable
  rw [List.filter_eq_self]
  exact forall₂_congr fun f _ => by rw [Bool.not_eq_true']

/-- Definitions that are the same but for their errors have one name, path and place. -/
theorem Definition.eq_of_uncounted_eq {d₁ d₂ : Definition} (h : d₁.uncounted = d₂.uncounted) :
    d₁.name = d₂.name ∧ d₁.path = d₂.path ∧ d₁.origin = d₂.origin := by
  injection h with hname hpath _ _ _ _ _ _ _ _ _ _ _ _ horigin
  exact ⟨hname, hpath, horigin⟩

namespace Loading

variable {load load' : Loader} {disk : Disk} {w w₁ w₂ : Workspace}

/-- A file that is compiled has been noted afterwards. -/
theorem mem_compiled_compileFile (hload : load.Frames disk) (kind : LibraryKind) {path : String}
    {canonical : String} {object : DiskObject}
    (hfind : disk.find? path = some (canonical, object)) :
    canonical ∈ (compileFile load disk kind path w).1.compiled := by
  have hcompiles := compiles_compileFile load disk kind path w
  generalize compileFile load disk kind path w = result at hcompiles ⊢
  cases hcompiles with
  | missing hnone => exact absurd hfind (by simp [hnone])
  | known hsame hknown =>
    obtain ⟨rfl, rfl⟩ := Prod.mk.inj (Option.some.inj (hfind.symm.trans hsame))
    exact hknown
  | unreadable hsame _ _ =>
    obtain ⟨rfl, rfl⟩ := Prod.mk.inj (Option.some.inj (hfind.symm.trans hsame))
    exact Std.ExtTreeSet.mem_insert_self
  | @compiled _ text _ hsame _ _ =>
    obtain ⟨rfl, rfl⟩ := Prod.mk.inj (Option.some.inj (hfind.symm.trans hsame))
    rw [(updateLibrary_frame _ _ _).2.1]
    exact (frame_compileText hload kind path text
      { w with compiled := w.compiled.insert canonical }).1.compiled _
        Std.ExtTreeSet.mem_insert_self

/-- A file that is found is compiled, or it cannot be read. -/
theorem problem_compileFile (load : Loader) (kind : LibraryKind) {path : String}
    {canonical : String} {object : DiskObject}
    (hfind : disk.find? path = some (canonical, object)) :
    (compileFile load disk kind path w).2.filter (fun problem => !problem.isUnreadable) = none := by
  have hcompiles := compiles_compileFile load disk kind path w
  generalize compileFile load disk kind path w = result at hcompiles ⊢
  cases hcompiles with
  | missing hnone => exact absurd hfind (by simp [hnone])
  | known _ _ | unreadable _ _ _ | compiled _ _ _ => rfl

/-- A file is not compiled again once it has been noted, and no problem is found with it. -/
theorem compileFile_again (hload : load.Frames disk) (kind : LibraryKind) (path : String)
    (hsub : ∀ file ∈ (compileFile load disk kind path w₁).1.compiled, file ∈ w₂.compiled) :
    compileFile load' disk kind path w₂ =
      (w₂, (compileFile load disk kind path w₁).2.filter fun problem => !problem.isUnreadable) := by
  cases hfind : disk.find? path with
  | none =>
    rw [(Compiles.missing hfind).eq, (Compiles.missing hfind).eq]
    rfl
  | some found =>
    obtain ⟨canonical, object⟩ := found
    have hmem := hsub canonical (mem_compiled_compileFile hload kind hfind)
    rw [problem_compileFile load kind hfind, (Compiles.known hfind hmem).eq]

/-- Nothing is loaded again. -/
theorem loader_again (disk : Disk) (n : Nat) (kind : LibraryKind) (name : String)
    (hsettings : w₂.settings = w₁.settings)
    (hsub : ∀ file ∈ (loader disk (n + 1) kind name w₁).1.compiled, file ∈ w₂.compiled) :
    loader disk (n + 1) kind name w₂ =
      (w₂, (loader disk (n + 1) kind name w₁).2.filter fun problem => !problem.isUnreadable) := by
  have hloads := loads_loader disk n kind name w₁
  have hunfold : loader disk (n + 1) kind name w₂ =
      compileNamed (loader disk n) disk kind name w₂ := rfl
  rw [hunfold]
  generalize loader disk (n + 1) kind name w₁ = result at hsub hloads ⊢
  cases hloads with
  | standard hname => exact Loads.eq (.standard hname)
  | missing hname hpath => exact Loads.eq (.missing hname (hsettings ▸ hpath))
  | found hname hpath =>
    rw [(Loads.found hname (hsettings ▸ hpath)).eq]
    exact compileFile_again (frames_loader disk n) kind _ hsub

end Loading

namespace Reader

open Loading

/-! ## Readers of two runs -/

/-- The forests have the same definitions, errors apart. -/
def SameUncounted (forest₁ forest₂ : Forest) : Prop :=
  ∀ path : String, (forest₁[path]?).map Definition.uncounted =
    (forest₂[path]?).map Definition.uncounted

/-- What is known when all files that the first reader has noted are noted in the workspace of the
second one. -/
structure Unloaded (w : Workspace) (r₁ r₂ : Reader) : Prop where
  around : r₂.Around w
  findings : r₂.findings = readable r₁.findings
  same : (∀ f ∈ r₁.findings, f.isUnreadable = false) →
    r₁.work.forest = r₂.work.forest ∧ r₁.work.opened = r₂.work.opened

/-- The readers of two runs, of which the second one begins in the workspace `w`. -/
structure Again (w : Workspace) (r₁ r₂ : Reader) : Prop where
  view : r₁.view = r₂.view
  ended : r₁.ended = r₂.ended
  forest : SameUncounted r₁.work.forest r₂.work.forest
  first : r₁.OfNetlist
  second : r₂.OfNetlist
  settings : r₁.work.settings = w.settings
  unloaded : (∀ file ∈ r₁.work.compiled, file ∈ w.compiled) → r₁.Unloaded w r₂

variable {w : Workspace} {r₁ r₂ : Reader}

/-- What is known of two runs that load nothing stays known behind a finding. -/
theorem Unloaded.report (h : r₁.Unloaded w r₂) {f : Finding} (hf : f.isUnreadable = false) :
    (r₁.report f).Unloaded w (r₂.report f) where
  around := h.around.report f
  findings := by
    rw [findings_report, findings_report, h.findings, readable_append, readable_singleton hf]
  same := by
    intro hall
    rw [findings_report] at hall
    obtain ⟨hforest, hopened⟩ := h.same fun f hf => hall f (List.mem_append_left _ hf)
    rw [report_eq, report_eq]
    exact ⟨hforest, by rw [hopened]⟩

/-- What is known of two runs that load nothing stays known behind a change of the innermost
definition. -/
theorem Unloaded.modifyCurrent (h : r₁.Unloaded w r₂) (g : Definition → Definition) :
    (r₁.modifyCurrent g).Unloaded w (r₂.modifyCurrent g) where
  around := h.around.modifyCurrent g
  findings := by
    rw [findings_modifyCurrent, findings_modifyCurrent]
    exact h.findings
  same := by
    intro hall
    rw [findings_modifyCurrent] at hall
    obtain ⟨hforest, hopened⟩ := h.same hall
    rw [modifyCurrent_eq, modifyCurrent_eq]
    exact ⟨hforest, by rw [hopened]⟩

/-- A file that only the first reader could not read makes the readers differ. -/
theorem Unloaded.unreadable (h : r₁.Unloaded w r₂) {f : Finding} (hf : f.isUnreadable = true) :
    (r₁.report f).Unloaded w r₂ where
  around := h.around
  findings := by
    have hnone : readable [f] = [] := List.filter_cons_of_neg (by rw [hf]; simp)
    rw [findings_report, readable_append, hnone, List.append_nil]
    exact h.findings
  same := by
    intro hall
    rw [findings_report] at hall
    rw [hall f (List.mem_append_right _ (List.mem_singleton_self f))] at hf
    exact absurd hf (by simp)

/-- A change that has nothing to do with errors changes the view in the same way. -/
theorem view_modifyCurrent {g : Definition → Definition}
    (hg : ∀ d, (g d).uncounted = g d.uncounted) (r : Reader) :
    (r.modifyCurrent g).view = { r.view with opened := r.view.opened.modifyHead g } := by
  rw [modifyCurrent_eq]
  unfold Reader.view
  cases r.work.opened with
  | nil => rfl
  | cons d around =>
    show View.mk (((g d).uncounted) :: around.map Definition.uncounted) _ = _
    rw [hg]
    rfl

/-! ### Closing -/

/-- Forests that agree but for errors have the same paths. -/
theorem SameUncounted.contains {forest₁ forest₂ : Forest} (h : SameUncounted forest₁ forest₂)
    (path : String) : forest₁.contains path = forest₂.contains path := by
  have hpath := congrArg Option.isSome (h path)
  rw [Option.isSome_map, Option.isSome_map] at hpath
  rw [Std.ExtTreeMap.contains_eq_isSome_getElem?, Std.ExtTreeMap.contains_eq_isSome_getElem?, hpath]

/-- Forests that agree but for errors do so with definitions added that agree but for errors. -/
theorem SameUncounted.insert {forest₁ forest₂ : Forest} (h : SameUncounted forest₁ forest₂)
    {d₁ d₂ : Definition} (hd : d₁.uncounted = d₂.uncounted) :
    SameUncounted (forest₁.insert d₁.path d₁) (forest₂.insert d₂.path d₂) := by
  obtain ⟨-, hpath, -⟩ := Definition.eq_of_uncounted_eq hd
  intro path
  rw [Std.ExtTreeMap.getElem?_insert, Std.ExtTreeMap.getElem?_insert, hpath]
  split
  · exact congrArg some hd
  · exact h path

/-- The definitions that two readers with the same view have open. -/
theorem opened_of_view_eq (h : r₁.view = r₂.view) {d₁ : Definition} {around₁ : List Definition}
    (hopened : r₁.work.opened = d₁ :: around₁) :
    ∃ d₂ around₂, r₂.work.opened = d₂ :: around₂ ∧ d₁.uncounted = d₂.uncounted ∧
      around₁.map Definition.uncounted = around₂.map Definition.uncounted := by
  have hmap : r₁.work.opened.map Definition.uncounted = r₂.work.opened.map Definition.uncounted :=
    congrArg View.opened h
  rw [hopened, List.map_cons] at hmap
  obtain ⟨d₂, around₂, hopened₂, hd, haround⟩ := List.map_eq_cons_iff.1 hmap.symm
  exact ⟨d₂, around₂, hopened₂, hd.symm, haround.symm⟩

/-- Adding a definition is seen in the one around it. -/
theorem view_close (r : Reader) {d : Definition} {around : List Definition}
    (hopened : r.work.opened = d :: around) :
    r.close.view =
      if r.work.forest.contains d.path then ⟨around.map Definition.uncounted, r.skipDepth⟩
      else
        ⟨(around.map Definition.uncounted).modifyHead fun parent =>
          { parent with subcircuits := parent.subcircuits ++ [d.name] }, r.skipDepth⟩ := by
  cases hcontains : r.work.forest.contains d.path with
  | true =>
    rw [close_of_contains hopened hcontains, view_report]
    rfl
  | false =>
    rw [close_of_not_contains hopened hcontains]
    exact view_modifyCurrent
      (g := fun parent => { parent with subcircuits := parent.subcircuits ++ [d.name] })
      (fun _ => rfl) _

/-- A definition that is closed goes to its path, unless that is taken. -/
theorem forest_close (r : Reader) {d : Definition} {around : List Definition}
    (hopened : r.work.opened = d :: around) :
    r.close.work.forest =
      if r.work.forest.contains d.path then r.work.forest else r.work.forest.insert d.path d := by
  cases hcontains : r.work.forest.contains d.path with
  | true =>
    rw [close_of_contains hopened hcontains, report_eq]
    rfl
  | false =>
    rw [close_of_not_contains hopened hcontains, modifyCurrent_eq]
    rfl

/-- Closing a definition does not end the text and changes neither the settings nor the compiled
files. -/
theorem close_frame (r : Reader) :
    r.close.ended = r.ended ∧ r.close.work.settings = r.work.settings ∧
      r.close.work.compiled = r.work.compiled := by
  cases hopened : r.work.opened with
  | nil =>
    unfold close
    rw [hopened]
    exact ⟨rfl, rfl, rfl⟩
  | cons d around =>
    cases hcontains : r.work.forest.contains d.path with
    | true =>
      rw [close_of_contains hopened hcontains, report_eq]
      exact ⟨rfl, rfl, rfl⟩
    | false =>
      rw [close_of_not_contains hopened hcontains, modifyCurrent_eq]
      exact ⟨rfl, rfl, rfl⟩

/-- What is left when a definition is closed depends on the forest and the open definitions
alone. -/
theorem close_congr (hforest : r₁.work.forest = r₂.work.forest)
    (hopened : r₁.work.opened = r₂.work.opened) :
    r₁.close.work.forest = r₂.close.work.forest ∧
      r₁.close.work.opened = r₂.close.work.opened := by
  cases hopened₂ : r₂.work.opened with
  | nil =>
    rw [hopened₂] at hopened
    unfold close
    rw [hopened, hopened₂]
    exact ⟨hforest, hopened.trans hopened₂.symm⟩
  | cons d around =>
    rw [hopened₂] at hopened
    cases hcontains : r₂.work.forest.contains d.path with
    | true =>
      rw [close_of_contains hopened (hforest ▸ hcontains), close_of_contains hopened₂ hcontains,
        report_eq, report_eq]
      exact ⟨hforest, rfl⟩
    | false =>
      rw [close_of_not_contains hopened (hforest ▸ hcontains),
        close_of_not_contains hopened₂ hcontains, modifyCurrent_eq, modifyCurrent_eq]
      exact ⟨congrArg (fun forest : Forest => forest.insert d.path d) hforest, rfl⟩

/-- In both runs the same is found wrong when a definition is closed. -/
theorem Again.closeFindings (h : Again w r₁ r₂) : r₁.closeFindings = r₂.closeFindings := by
  unfold Reader.closeFindings
  cases hopened : r₁.work.opened with
  | nil =>
    have hlength := length_opened_eq_view r₂
    rw [← h.view, ← length_opened_eq_view, hopened] at hlength
    rw [List.eq_nil_of_length_eq_zero hlength]
  | cons d₁ around₁ =>
    obtain ⟨d₂, around₂, hopened₂, hd, -⟩ := opened_of_view_eq h.view hopened
    obtain ⟨hname, hpath, horigin⟩ := Definition.eq_of_uncounted_eq hd
    rw [hopened₂]
    dsimp only
    rw [hpath, h.forest.contains, hname, horigin]

/-- What is found wrong when a definition is closed is about no unreadable file. -/
theorem isUnreadable_of_mem_closeFindings {r : Reader} {f : Finding} (h : f ∈ r.closeFindings) :
    f.isUnreadable = false := by
  unfold Reader.closeFindings at h
  split at h
  · exact absurd h List.not_mem_nil
  · split at h
    · rw [List.mem_singleton.1 h]
      rfl
    · exact absurd h List.not_mem_nil

/-- What is known of two runs that load nothing stays known when a definition is closed. -/
theorem Again.unloaded_close (h : Again w r₁ r₂) (hunloaded : r₁.Unloaded w r₂)
    (hdeep : 1 < r₂.work.opened.length) : r₁.close.Unloaded w r₂.close where
  around := hunloaded.around.close hdeep
  findings := by
    have hclose : readable r₂.closeFindings = r₂.closeFindings :=
      readable_eq_self_iff.2 fun f hf => isUnreadable_of_mem_closeFindings hf
    rw [(close_findings r₂).1, (close_findings r₁).1, readable_append, hunloaded.findings,
      h.closeFindings, hclose]
  same := by
    intro hall
    rw [(close_findings r₁).1] at hall
    obtain ⟨hforest, hopened⟩ := hunloaded.same fun f hf => hall f (List.mem_append_left _ hf)
    exact close_congr hforest hopened

/-- The second run closes the definition that the first one closes. -/
theorem Again.close (h : Again w r₁ r₂) (hdeep : 1 < r₁.work.opened.length) :
    Again w r₁.close r₂.close := by
  have hdeep₂ : 1 < r₂.work.opened.length := by
    rwa [length_opened_eq_view, ← h.view, ← length_opened_eq_view]
  cases hopened : r₁.work.opened with
  | nil =>
    rw [hopened] at hdeep
    exact absurd hdeep (Nat.not_lt_zero _)
  | cons d₁ around₁ =>
    obtain ⟨d₂, around₂, hopened₂, hd, haround⟩ := opened_of_view_eq h.view hopened
    obtain ⟨hname, hpath, -⟩ := Definition.eq_of_uncounted_eq hd
    have hskip : r₁.skipDepth = r₂.skipDepth := congrArg View.skipDepth h.view
    have hcontains := h.forest.contains d₁.path
    obtain ⟨hended₁, hsettings₁, hcompiled₁⟩ := close_frame r₁
    refine ⟨?_, ?_, ?_, h.first.close hdeep, h.second.close hdeep₂, hsettings₁.trans h.settings,
      fun hsub => ?_⟩
    · rw [view_close r₁ hopened, view_close r₂ hopened₂, hcontains, haround, hskip, hpath, hname]
    · rw [hended₁, (close_frame r₂).1, h.ended]
    · rw [forest_close r₁ hopened, forest_close r₂ hopened₂, hcontains, hpath]
      split
      · exact h.forest
      · have hinsert := h.forest.insert hd
        rwa [hpath] at hinsert
    · rw [hcompiled₁] at hsub
      exact h.unloaded_close (h.unloaded hsub) hdeep₂

/-! ### Other steps -/

/-- The second run reports what the first one reports, unreadable files apart. -/
theorem Again.report (h : Again w r₁ r₂) {f : Finding} (hf : f.isUnreadable = false) :
    Again w (r₁.report f) (r₂.report f) where
  view := by
    rw [view_report, view_report]
    exact h.view
  ended := by
    rw [report_eq, report_eq]
    exact h.ended
  forest := by
    rw [report_eq, report_eq]
    exact h.forest
  first := h.first.report f
  second := h.second.report f
  settings := by
    rw [report_eq]
    exact h.settings
  unloaded := by
    intro hsub
    rw [report_eq] at hsub
    exact (h.unloaded hsub).report hf

/-- The second run makes the change that the first one makes. -/
theorem Again.change (h : Again w r₁ r₂) {file : String} {line : List Token}
    {g : Definition → Definition} (hg : Mild file line g) :
    Again w (r₁.modifyCurrent g) (r₂.modifyCurrent g) where
  view := by
    rw [view_modifyCurrent hg.uncounted, view_modifyCurrent hg.uncounted, h.view]
  ended := by
    rw [modifyCurrent_eq, modifyCurrent_eq]
    exact h.ended
  forest := by
    rw [modifyCurrent_eq, modifyCurrent_eq]
    exact h.forest
  first := h.first.modifyCurrent hg.path hg.errors fun _ hd => unbound_of_mild hg hd
  second := h.second.modifyCurrent hg.path hg.errors fun _ hd => unbound_of_mild hg hd
  settings := by
    rw [modifyCurrent_eq]
    exact h.settings
  unloaded := by
    intro hsub
    rw [modifyCurrent_eq] at hsub
    exact (h.unloaded hsub).modifyCurrent g

/-- Apart from what it loads a library line changes what is reported only. -/
theorem loaded_frame (src : Source) (load : Loader) (r : Reader) (t : Token) :
    (r.loaded src load t).ended = r.ended ∧
      (r.loaded src load t).work.forest = (load src.libraryKind t.text r.work).1.forest ∧
      (r.loaded src load t).work.settings = (load src.libraryKind t.text r.work).1.settings ∧
      (r.loaded src load t).work.compiled = (load src.libraryKind t.text r.work).1.compiled := by
  unfold loaded
  generalize load src.libraryKind t.text r.work = result
  obtain ⟨work, problem?⟩ := result
  cases problem? with
  | none => exact ⟨rfl, rfl, rfl, rfl⟩
  | some problem =>
    dsimp only
    rw [report_eq]
    exact ⟨rfl, rfl, rfl, rfl⟩

/-- Loading a library does not change what the reader sees. -/
theorem view_loaded {load : Loader} {disk : Disk} (hframes : load.Frames disk) (src : Source)
    (r : Reader) (t : Token) : (r.loaded src load t).view = r.view := by
  rw [loaded_eq, view_reportAll]
  show View.mk ((load src.libraryKind t.text r.work).1.opened.map Definition.uncounted) _ = _
  rw [hframes.opened]
  rfl

/-- A library file that the second reader does not compile again has been compiled in the first
run, or cannot be read. -/
theorem Unloaded.loaded (h : r₁.Unloaded w r₂) {load₁ load₂ : Loader} (src : Source) (t : Token)
    (hforest : (load₁ src.libraryKind t.text r₁.work).1.forest = r₁.work.forest)
    (hopened : (load₁ src.libraryKind t.text r₁.work).1.opened = r₁.work.opened)
    (hagain : load₂ src.libraryKind t.text r₂.work =
      (r₂.work, (load₁ src.libraryKind t.text r₁.work).2.filter
        fun problem => !problem.isUnreadable)) :
    (r₁.loaded src load₁.silenced t).Unloaded w (r₂.loaded src load₂ t) := by
  unfold Reader.loaded Loader.silenced
  rw [hagain]
  revert hforest hopened
  generalize load₁ src.libraryKind t.text r₁.work = result
  obtain ⟨work, problem?⟩ := result
  intro hforest hopened
  have hloaded : Unloaded w { r₁ with work := { work with diagnostics := r₁.work.diagnostics } }
      r₂ := by
    refine ⟨h.around, h.findings, fun hall => ?_⟩
    obtain ⟨hsame, hopen⟩ := h.same hall
    exact ⟨hforest.trans hsame, hopened.trans hopen⟩
  cases problem? with
  | none => exact hloaded
  | some problem =>
    dsimp only [Option.filter_some]
    cases hproblem : problem.isUnreadable with
    | true => exact hloaded.unreadable hproblem
    | false => exact hloaded.report hproblem

/-- What a library line does to both readers: the first one loads, the second one does not. -/
theorem Again.loaded (h : Again w r₁ r₂) (disk : Disk) (n : Nat) (src : Source) (t : Token) :
    Again w (r₁.loaded src (loader disk (n + 1)).silenced t)
      (r₂.loaded src (loader disk (n + 1)) t) := by
  have hframes := frames_loader disk (n + 1)
  have hframe₁ := hframes.frame src.libraryKind t.text r₁.work
  have hforest₁ := h.first.plain.eq_of_frame hframe₁
  have hforest₂ := h.second.plain.eq_of_frame (hframes.frame src.libraryKind t.text r₂.work)
  obtain ⟨hended, hforest, hsettings, hcompiled⟩ :=
    loaded_frame src (loader disk (n + 1)).silenced r₁ t
  obtain ⟨hended', hforest', -, -⟩ := loaded_frame src (loader disk (n + 1)) r₂ t
  refine ⟨?_, ?_, ?_, h.first.loaded hframes.silenced src t, h.second.loaded hframes src t, ?_,
    fun hsub => ?_⟩
  · rw [view_loaded hframes.silenced, view_loaded hframes, h.view]
  · rw [hended, hended', h.ended]
  · rw [hforest, hforest', hforest₂]
    show SameUncounted (loader disk (n + 1) src.libraryKind t.text r₁.work).1.forest _
    rw [hforest₁]
    exact h.forest
  · rw [hsettings]
    exact hframe₁.settings.trans h.settings
  · rw [hcompiled] at hsub
    change ∀ file ∈ (loader disk (n + 1) src.libraryKind t.text r₁.work).1.compiled, _ at hsub
    have hunloaded := h.unloaded fun file hfile => hsub file (hframe₁.compiled file hfile)
    obtain ⟨-, forest, opened, diagnostics, hwork⟩ := hunloaded.around
    refine hunloaded.loaded src t hforest₁ (hframes.opened _ _ _)
      (loader_again disk n src.libraryKind t.text ?_ fun file hfile => ?_)
    · rw [hwork, h.settings]
    · rw [hwork]
      exact hsub file hfile

/-- Whatever is done to a reader leaves the settings alone. -/
theorem keeps_settings {load : Loader} {disk : Disk} (hframes : load.Frames disk) (src : Source)
    (settings : Settings) :
    Keeps src load fun r => 0 < r.work.opened.length ∧ r.work.settings = settings where
  opened := fun h => h.1
  report := by
    intro r f h _
    rw [length_opened_report, report_eq]
    exact h
  change := by
    intro r g line h _ _
    rw [length_opened_modifyCurrent, modifyCurrent_eq]
    exact h
  opens := by
    intro r first name heading h _ _
    exact ⟨Nat.succ_pos _, h.2⟩
  closes := by
    intro r h hdeep
    rw [length_opened_close, (close_frame r).2.1]
    exact ⟨by omega, h.2⟩
  load := by
    intro r t h _
    rw [length_opened_eq_view, view_loaded hframes, ← length_opened_eq_view,
      (loaded_frame src load r t).2.2.1, (hframes.frame _ _ _).settings]
    exact h
  skipTo := fun _ h => h
  stop := fun h => h

/-- Whatever is done to a reader in the first run is done in the second one as well. -/
theorem simulation_again (disk : Disk) (n : Nat) (src : Source) (w : Workspace) :
    Simulation src (loader disk (n + 1)).silenced (loader disk (n + 1)) (Again w) where
  view := fun h => h.view
  ended := fun h => h.ended
  opened := fun h => h.first.opened.nonempty
  report := fun f h hf => h.report (Finding.isUnreadable_of_problemClass hf)
  change := fun h _ hg => h.change hg
  opens := by
    intro r₁ r₂ first name heading h hname hnamed
    have hframes := frames_loader disk (n + 1)
    have hfirst := (keeps_ofNetlist hframes.silenced src).opens first heading h.first hname hnamed
    have hsecond := (keeps_ofNetlist hframes src).opens first heading h.second hname hnamed
    rw [← h.view] at hsecond
    refine ⟨?_, h.ended, h.forest, hfirst, hsecond, h.settings, fun hsub => ?_⟩
    · show View.mk (_ :: r₁.view.opened) r₁.view.skipDepth = View.mk (_ :: r₂.view.opened) _
      rw [h.view]
      rfl
    · obtain ⟨⟨-, forest, opened, diagnostics, hwork⟩, hfindings, hsame⟩ := h.unloaded hsub
      refine ⟨⟨Nat.succ_pos _, forest, _, diagnostics, congrArg (fun w : Workspace =>
        { w with opened := opening src r₁.view first name heading :: r₂.work.opened }) hwork⟩,
        hfindings, fun hall => ⟨(hsame hall).1, ?_⟩⟩
      exact congrArg (opening src r₁.view first name heading :: ·) (hsame hall).2
  closes := fun h hdeep => h.close hdeep
  load := fun {_ _ t} h _ => h.loaded disk n src t
  skipTo := by
    intro r₁ r₂ depth h
    refine ⟨congrArg (fun v : View => { v with skipDepth := depth }) h.view, h.ended, h.forest,
      ?_, ?_, h.settings, fun hsub => ?_⟩
    · exact ⟨h.first.opened, h.first.inside, h.first.unboundOpened, h.first.unboundForest,
        h.first.counted⟩
    · exact ⟨h.second.opened, h.second.inside, h.second.unboundOpened, h.second.unboundForest,
        h.second.counted⟩
    · obtain ⟨haround, hfindings, hsame⟩ := h.unloaded hsub
      exact ⟨⟨haround.nonempty, haround.same⟩, hfindings, hsame⟩
  stop := by
    intro r₁ r₂ h
    refine ⟨congrArg (fun v : View => { v with skipDepth := 0 }) h.view, rfl, h.forest, ?_, ?_,
      h.settings, fun hsub => ?_⟩
    · exact ⟨h.first.opened, h.first.inside, h.first.unboundOpened, h.first.unboundForest,
        h.first.counted⟩
    · exact ⟨h.second.opened, h.second.inside, h.second.unboundOpened, h.second.unboundForest,
        h.second.counted⟩
    · obtain ⟨haround, hfindings, hsame⟩ := h.unloaded hsub
      exact ⟨⟨haround.nonempty, haround.same⟩, hfindings, hsame⟩

end Reader

namespace Workspace

/-! ## Two runs -/

/-- What is left when a text is settled depends on the forest and the open definitions alone. -/
theorem settle_congr {r₁ r₂ : Reader} (hforest : r₁.work.forest = r₂.work.forest)
    (hopened : r₁.work.opened = r₂.work.opened) :
    r₁.settle.work.forest = r₂.settle.work.forest ∧
      r₁.settle.work.opened = r₂.settle.work.opened := by
  unfold Reader.settle
  rw [hopened]
  cases hopened₂ : r₂.work.opened with
  | nil => exact ⟨hforest, hopened⟩
  | cons root around =>
    exact ⟨congrArg (fun forest : Forest => forest.insert root.path root) hforest, rfl⟩

variable (w : Workspace) (disk : Disk) (label text : String)

/-- What is found wrong with a netlist itself while it is read. -/
def readingFindings : List Finding := (w.readerWith disk.loader.silenced label text).findings

/-- The workspace in which a netlist has been compiled. -/
def compiledOnce : Workspace := (w.compile disk label text).1

/-- A netlist that is compiled a second time gives the circuit that it gave the first time. -/
def Repeatable : Prop :=
  ((w.compiledOnce disk label text).compile disk label text).2 = (w.compile disk label text).2

/-- What remains of the reader of a netlist when the netlist has been compiled. -/
theorem compiledOnce_kept :
    (w.compiledOnce disk label text).settings =
        (w.readerWith disk.loader.silenced label text).work.settings ∧
      (w.compiledOnce disk label text).user =
        (w.readerWith disk.loader.silenced label text).work.user ∧
      (w.compiledOnce disk label text).builtin =
        (w.readerWith disk.loader.silenced label text).work.builtin ∧
      (w.compiledOnce disk label text).compiled =
        (w.readerWith disk.loader.silenced label text).work.compiled := by
  obtain ⟨hsettings, -, -, huser, hbuiltin, hcompiled⟩ :=
    eq_of_unheard_eq (w.compileSilently_eq disk label text).1
  obtain ⟨hsettings', huser', hbuiltin', hcompiled'⟩ :=
    finishNetlist_kept (w.readerWith disk.loader.silenced label text).settle.work
  obtain ⟨hsettings'', huser'', hbuiltin'', hcompiled''⟩ :=
    Reader.settle_kept (w.readerWith disk.loader.silenced label text)
  unfold compiledOnce
  rw [← hsettings, ← huser, ← hbuiltin, ← hcompiled]
  unfold compileSilently
  rw [hsettings', huser', hbuiltin', hcompiled']
  exact ⟨hsettings'', huser'', hbuiltin'', hcompiled''⟩

/-- Two readers of netlists are alike at their beginning. -/
theorem again_initial {w w' : Workspace} (hsettings : w.settings = w'.settings) :
    (Reader.initial ⟨label, .netlist⟩ "" text w.reset).Again w'
      (Reader.initial ⟨label, .netlist⟩ "" text w'.reset) := by
  have hnetlist : ∀ w : Workspace,
      (Reader.initial ⟨label, .netlist⟩ "" text w.reset).OfNetlist :=
    fun w => Reader.initial_ofNetlist rfl rfl _ _
  refine ⟨rfl, rfl, fun _ => rfl, hnetlist w, hnetlist w', hsettings, fun _ => ?_⟩
  exact ⟨⟨Nat.succ_pos _, _, _, _, rfl⟩, rfl, fun _ => ⟨rfl, rfl⟩⟩

/-- When a netlist is compiled once more, nothing is loaded. -/
theorem unloaded_compiledOnce :
    (w.readerWith disk.loader.silenced label text).Unloaded (w.compiledOnce disk label text)
      ((w.compiledOnce disk label text).readerWith disk.loader label text) := by
  obtain ⟨hsettings, -, -, hcompiled⟩ := w.compiledOnce_kept disk label text
  have hframes : disk.loader.Frames disk := Loading.frames_loader disk _
  have hkept : 0 < _ ∧ (w.readerWith disk.loader.silenced label text).work.settings = w.settings :=
    (Reader.keeps_settings hframes.silenced ⟨label, .netlist⟩ w.settings).ofText
      ⟨Nat.succ_pos _, rfl⟩
  have hagain := (Reader.simulation_again disk disk.objects.size ⟨label, .netlist⟩
    (w.compiledOnce disk label text)).ofText
      (again_initial label text (hsettings.trans hkept.2).symm)
  refine hagain.unloaded fun file hfile => ?_
  rw [hcompiled]
  exact hfile

/-- If all library files can be read, the second run reads what the first one has read. -/
theorem unheard_settle_compiledOnce
    (h : ∀ f ∈ w.readingFindings disk label text, f.isUnreadable = false) :
    (w.readerWith disk.loader.silenced label text).settle.work.unheard =
      ((w.compiledOnce disk label text).readerWith disk.loader label text).settle.work.unheard := by
  obtain ⟨haround, -, hsame⟩ := w.unloaded_compiledOnce disk label text
  obtain ⟨hsettings₃, huser₃, hbuiltin₃, hcompiled₃⟩ := haround.kept
  obtain ⟨hforest, hopened⟩ := settle_congr (hsame h).1 (hsame h).2
  obtain ⟨hsettings, huser, hbuiltin, hcompiled⟩ := w.compiledOnce_kept disk label text
  obtain ⟨hsettings₁, huser₁, hbuiltin₁, hcompiled₁⟩ :=
    Reader.settle_kept (w.readerWith disk.loader.silenced label text)
  obtain ⟨hsettings₂, huser₂, hbuiltin₂, hcompiled₂⟩ :=
    Reader.settle_kept ((w.compiledOnce disk label text).readerWith disk.loader label text)
  refine unheard_congr ?_ hforest hopened ?_ ?_ ?_
  · rw [hsettings₁, hsettings₂, hsettings₃, hsettings]
  · rw [huser₁, huser₂, huser₃, huser]
  · rw [hbuiltin₁, hbuiltin₂, hbuiltin₃, hbuiltin]
  · rw [hcompiled₁, hcompiled₂, hcompiled₃, hcompiled]

/-- The second run keeps the libraries that the first one has left behind. -/
theorem libraries_compiledOnce :
    ((w.compiledOnce disk label text).compile disk label text).1.user =
        (w.compiledOnce disk label text).user ∧
      ((w.compiledOnce disk label text).compile disk label text).1.builtin =
        (w.compiledOnce disk label text).builtin ∧
      ((w.compiledOnce disk label text).compile disk label text).1.compiled =
        (w.compiledOnce disk label text).compiled := by
  obtain ⟨-, huser'', hbuiltin'', hcompiled''⟩ :=
    (w.unloaded_compiledOnce disk label text).around.kept
  obtain ⟨-, huser, hbuiltin, hcompiled⟩ :=
    Reader.settle_kept ((w.compiledOnce disk label text).readerWith disk.loader label text)
  obtain ⟨-, huser', hbuiltin', hcompiled'⟩ := finishNetlist_kept
    ((w.compiledOnce disk label text).readerWith disk.loader label text).settle.work
  rw [compile_eq, readNetlist_eq, huser', hbuiltin', hcompiled', huser, hbuiltin, hcompiled]
  exact ⟨huser'', hbuiltin'', hcompiled''⟩

/-- What the second run reports while the netlist is read: what has been found wrong in the netlist
itself the first time, apart from files that cannot be read. -/
theorem readingFindings_compiledOnce :
    ((w.compiledOnce disk label text).readNetlist disk label text).diagnostics.findings =
      readable (w.readingFindings disk label text) := by
  rw [readNetlist_eq]
  exact (Reader.findings_settle _).1.trans (w.unloaded_compiledOnce disk label text).findings

/-- If all library files can be read, the second run gives the same circuit and finds the same wrong
with the netlist. -/
theorem compile_compiledOnce
    (h : ∀ f ∈ w.readingFindings disk label text, f.isUnreadable = false) :
    w.Repeatable disk label text ∧
      ((w.compiledOnce disk label text).compile disk label text).1.diagnostics.findings =
        w.ownFindings disk label text := by
  obtain ⟨-, hcircuit, hfinish⟩ :=
    finishNetlist_congr (w.unheard_settle_compiledOnce disk label text h)
  have hread := w.readingFindings_compiledOnce disk label text
  rw [readable_eq_self_iff.2 h, readNetlist_eq] at hread
  refine ⟨?_, ?_⟩
  · unfold Repeatable
    rw [← (w.compileSilently_eq disk label text).2, compile_eq, readNetlist_eq]
    exact hcircuit.symm
  · unfold ownFindings compileSilently
    rw [compile_eq, readNetlist_eq, findings_finishNetlist, findings_finishNetlist, hfinish, hread,
      readingFindings, ← (Reader.findings_settle _).1]
    rfl

/-- A second run keeps all libraries, and of what has been found wrong in the netlist while it was
read it finds everything but files that cannot be read.  So it gives the same circuit with the same
findings, unless a file could not be read in the first run. -/
theorem compile_twice :
    (((w.compiledOnce disk label text).compile disk label text).1.user =
        (w.compiledOnce disk label text).user ∧
      ((w.compiledOnce disk label text).compile disk label text).1.builtin =
        (w.compiledOnce disk label text).builtin ∧
      ((w.compiledOnce disk label text).compile disk label text).1.compiled =
        (w.compiledOnce disk label text).compiled) ∧
    ((w.compiledOnce disk label text).readNetlist disk label text).diagnostics.findings =
      readable (w.readingFindings disk label text) ∧
    ((∀ f ∈ w.readingFindings disk label text, f.isUnreadable = false) ↔
      w.Repeatable disk label text ∧
        ((w.compiledOnce disk label text).readNetlist disk label text).diagnostics.findings =
          w.readingFindings disk label text) ∧
    ((∀ f ∈ w.readingFindings disk label text, f.isUnreadable = false) →
      ((w.compiledOnce disk label text).compile disk label text).1.diagnostics.findings =
        w.ownFindings disk label text) := by
  have hread := w.readingFindings_compiledOnce disk label text
  refine ⟨w.libraries_compiledOnce disk label text, hread, ⟨fun h => ?_, fun h => ?_⟩,
    fun h => (w.compile_compiledOnce disk label text h).2⟩
  · exact ⟨(w.compile_compiledOnce disk label text h).1, by rw [hread, readable_eq_self_iff.2 h]⟩
  · exact readable_eq_self_iff.1 (hread.symm.trans h.2)

/-- Circuits with and without errors are not the same. -/
theorem not_repeatable_of_errors {w : Workspace} {disk : Disk} {label text : String}
    (hfirst : (w.compile disk label text).2.errors ≠ 0)
    (hsecond : ((w.compiledOnce disk label text).compile disk label text).2.errors = 0) :
    ¬w.Repeatable disk label text := by
  intro h
  have herrors := congrArg Circuit.errors h
  rw [hsecond] at herrors
  exact hfirst herrors.symm

/-- A disk with one library in the working directory, which is no text. -/
def unreadableDisk : Disk := ((FileTree.rooted []).write "a.lib" (ByteArray.mk #[255])).disk

set_option maxRecDepth 100000 in
/-- The second run of the netlist with the unreadable library is accepted. -/
theorem accepted_unreadable :
    ((standard.compiledOnce unreadableDisk "main.cir" loadingText).compile unreadableDisk
      "main.cir" loadingText).2.errors = 0 := by
  refine errors_compile_eq_zero ?_ ?_ ?_
  · decide +kernel
  · decide +kernel
  · exact contains_connectedNodes_flatten "R1" groundNode (by decide +kernel) (by decide +kernel)

set_option maxRecDepth 100000 in
/-- A netlist with a library that cannot be read is refused the first time and accepted the second
time. -/
theorem not_repeatable_unreadable :
    standard.Reachable ∧ ¬standard.Repeatable unreadableDisk "main.cir" loadingText :=
  ⟨reachable_standard, not_repeatable_of_errors (by decide +kernel) accepted_unreadable⟩

end Workspace

end FlatNet
