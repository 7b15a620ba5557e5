import FlatNet.Proofs.Reading.Netlist

/-!
# What libraries report

Diagnostics are written and never read: what is made of a text does not depend on what has been
reported before.  So a loader that keeps what is found wrong in libraries to itself makes the same
of a text, and leaves what has been found wrong in the text itself.
-/

set_option autoImplicit false

namespace FlatNet

/-- The workspace with nothing reported. -/
def Workspace.unheard (w : Workspace) : Workspace := { w with diagnostics := Diagnostics.empty }

/-- Workspaces that differ in what has been reported have the rest in common. -/
theorem Workspace.eq_of_unheard_eq {w₁ w₂ : Workspace} (h : w₁.unheard = w₂.unheard) :
    w₁.settings = w₂.settings ∧ w₁.forest = w₂.forest ∧ w₁.opened = w₂.opened ∧
      w₁.user = w₂.user ∧ w₁.builtin = w₂.builtin ∧ w₁.compiled = w₂.compiled := by
  injection h with hsettings hforest hopened huser hbuiltin hcompiled
  exact ⟨hsettings, hforest, hopened, huser, hbuiltin, hcompiled⟩

/-- Workspaces that agree but for what has been reported are the same with nothing reported. -/
theorem Workspace.unheard_congr {w₁ w₂ : Workspace} (hsettings : w₁.settings = w₂.settings)
    (hforest : w₁.forest = w₂.forest) (hopened : w₁.opened = w₂.opened) (huser : w₁.user = w₂.user)
    (hbuiltin : w₁.builtin = w₂.builtin) (hcompiled : w₁.compiled = w₂.compiled) :
    w₁.unheard = w₂.unheard := by
  unfold unheard
  rw [hsettings, hforest, hopened, huser, hbuiltin, hcompiled]

/-- The loaders make the same of workspaces that differ in what has been reported. -/
def Loader.Agrees (load₁ load₂ : Loader) : Prop :=
  ∀ (kind : LibraryKind) (name : String) (w₁ w₂ : Workspace), w₁.unheard = w₂.unheard →
    (load₁ kind name w₁).1.unheard = (load₂ kind name w₂).1.unheard ∧
      (load₁ kind name w₁).2 = (load₂ kind name w₂).2

/-- The loader that keeps what is found wrong in libraries to itself. -/
def Loader.silenced (load : Loader) : Loader := fun kind name w =>
  ({ (load kind name w).1 with diagnostics := w.diagnostics }, (load kind name w).2)

/-- A loader that does not depend on what has been reported agrees with its silenced form. -/
theorem Loader.Agrees.silenced {load : Loader} (h : load.Agrees load) :
    load.Agrees load.silenced := fun kind name w₁ w₂ hw => h kind name w₁ w₂ hw

/-- The silenced loader leaves the text alone as the loader does. -/
theorem Loader.Frames.silenced {load : Loader} {disk : Disk} (h : load.Frames disk) :
    load.silenced.Frames disk where
  frame := fun kind name w => (h.frame kind name w).congr rfl rfl rfl
  opened := h.opened

namespace Reader

/-- The reader with nothing reported. -/
def unheard (r : Reader) : Reader := { r with work := r.work.unheard }

variable (r : Reader)

/-- A change of the innermost definition does not depend on what has been reported. -/
theorem unheard_modifyCurrent (g : Definition → Definition) :
    (r.modifyCurrent g).unheard = (r.unheard.modifyCurrent g).unheard := by
  rw [modifyCurrent_eq, modifyCurrent_eq]
  rfl

/-- A finding is counted whatever has been reported before. -/
theorem unheard_report (f : Finding) : (r.report f).unheard = (r.unheard.report f).unheard := by
  rw [report_eq, report_eq]
  rfl

/-- Closing a definition does not depend on what has been reported. -/
theorem unheard_close : r.close.unheard = r.unheard.close.unheard := by
  cases hopened : r.work.opened with
  | nil =>
    have hsame : r.unheard.work.opened = [] := hopened
    unfold close
    rw [hopened, hsame]
    rfl
  | cons d around =>
    have hsame : r.unheard.work.opened = d :: around := hopened
    cases hcontains : r.work.forest.contains d.path with
    | true =>
      rw [close_of_contains hopened hcontains, close_of_contains hsame hcontains, unheard_report,
        unheard_report { r.unheard with work := _ }]
      rfl
    | false =>
      rw [close_of_not_contains hopened hcontains, close_of_not_contains hsame hcontains,
        unheard_modifyCurrent, unheard_modifyCurrent { r.unheard with work := _ }]
      rfl

/-- Settling does not depend on what has been reported. -/
theorem unheard_settle : r.settle.unheard = r.unheard.settle.unheard := by
  obtain ⟨⟨settings, forest, opened, user, builtin, compiled, diagnostics⟩, _, _, _⟩ := r
  cases opened with
  | nil => rfl
  | cons root around => rfl

/-- Two readers that differ at most in what has been reported. -/
structure Alike (r₁ r₂ : Reader) : Prop where
  unheard : r₁.unheard = r₂.unheard
  nonempty : 0 < r₁.work.opened.length

variable {r} {r₁ r₂ : Reader} {src : Source} {load₁ load₂ : Loader} {disk : Disk}

/-- Readers that are alike stay so behind the same finding. -/
theorem Alike.report (h : Alike r₁ r₂) (f : Finding) : Alike (r₁.report f) (r₂.report f) where
  unheard := by rw [unheard_report, h.unheard, ← unheard_report]
  nonempty := by
    rw [length_opened_report]
    exact h.nonempty

/-- Readers that are alike stay so behind the same library, if their loaders agree. -/
theorem Alike.loaded (h : Alike r₁ r₂) (hagrees : load₁.Agrees load₂) (hframes : load₁.Frames disk)
    (t : Token) : Alike (r₁.loaded src load₁ t) (r₂.loaded src load₂ t) := by
  have hwork : r₁.work.unheard = r₂.work.unheard := congrArg Reader.work h.unheard
  obtain ⟨hsame, hproblem⟩ := hagrees src.libraryKind t.text r₁.work r₂.work hwork
  have hopened := hframes.opened src.libraryKind t.text r₁.work
  have hrest := h.unheard
  unfold Reader.loaded
  revert hsame hproblem hopened
  generalize load₁ src.libraryKind t.text r₁.work = result₁
  generalize load₂ src.libraryKind t.text r₂.work = result₂
  obtain ⟨work₁, problem₁⟩ := result₁
  obtain ⟨work₂, problem₂⟩ := result₂
  intro hsame hproblem hopened
  have halike : Alike { r₁ with work := work₁ } { r₂ with work := work₂ } := by
    refine ⟨?_, ?_⟩
    · change work₁.unheard = work₂.unheard at hsame
      show ({ r₁.unheard with work := work₁.unheard } : Reader) =
        { r₂.unheard with work := work₂.unheard }
      rw [hsame, hrest]
    · change work₁.opened = r₁.work.opened at hopened
      show 0 < work₁.opened.length
      rw [hopened]
      exact h.nonempty
  change problem₁ = problem₂ at hproblem
  subst hproblem
  cases problem₁ with
  | none => exact halike
  | some problem => exact halike.report _

/-- What has been reported does not matter for what is done to a reader. -/
theorem simulation_alike (hagrees : load₁.Agrees load₂) (hframes : load₁.Frames disk)
    (src : Source) : Simulation src load₁ load₂ Alike where
  view := by
    intro r₁ r₂ h
    show r₁.unheard.view = r₂.unheard.view
    rw [h.unheard]
  ended := by
    intro r₁ r₂ h
    show r₁.unheard.ended = r₂.unheard.ended
    rw [h.unheard]
  opened := fun h => h.nonempty
  report := fun f h _ => h.report f
  change := by
    intro r₁ r₂ g line h _ _
    refine ⟨by rw [unheard_modifyCurrent, h.unheard, ← unheard_modifyCurrent], ?_⟩
    rw [length_opened_modifyCurrent]
    exact h.nonempty
  opens := by
    intro r₁ r₂ first name heading h _ _
    refine ⟨?_, Nat.succ_pos _⟩
    exact congrArg (fun r => (r.push (opening src r₁.view first name heading)).unheard) h.unheard
  closes := by
    intro r₁ r₂ h hdeep
    refine ⟨by rw [unheard_close, h.unheard, ← unheard_close], ?_⟩
    rw [length_opened_close]
    omega
  load := fun h _ => h.loaded hagrees hframes _
  skipTo := fun depth h =>
    ⟨congrArg (fun r => { r with skipDepth := depth }) h.unheard, h.nonempty⟩
  stop := fun h => ⟨congrArg readEnd h.unheard, h.nonempty⟩

end Reader

namespace Loading

variable {load₁ load₂ : Loader} {disk : Disk} {w w₁ w₂ : Workspace} {r : Reader}

/-- What is released behind a library text does not depend on what has been reported. -/
theorem unheard_released (label : String) (w : Workspace) (r : Reader) :
    (released label w r).unheard = (released label w.unheard r.unheard).unheard := by
  obtain ⟨⟨settings, forest, opened, user, builtin, compiled, diagnostics⟩, _, _, _⟩ := r
  cases opened with
  | nil => rfl
  | cons root around => rfl

/-- The resolution of a library text does not depend on what has been reported. -/
theorem resolutionOf_unheard (kind : LibraryKind) (label : String) (w : Workspace) (r : Reader) :
    resolutionOf kind label w r = resolutionOf kind label w.unheard r.unheard := by
  have hforest : r.settle.work.forest = r.unheard.settle.work.forest := by
    have hsettle := congrArg (fun r => r.work.forest) (Reader.unheard_settle r)
    exact hsettle
  obtain ⟨hsettings, -, -, huser, hbuiltin, -⟩ :=
    Workspace.eq_of_unheard_eq (unheard_released label w r)
  unfold resolutionOf surroundings
  rw [hforest, hsettings, huser, hbuiltin]

/-- Findings that are recorded do not change what becomes of a library. -/
theorem unheard_updateLibrary_recordAll (kind : LibraryKind) (w : Workspace)
    (findings : List Finding) (f : Library → Library) :
    ((w.recordAll findings).updateLibrary kind f).unheard = w.unheard.updateLibrary kind f := by
  cases kind with
  | builtin => rfl
  | user => rfl

/-- How a library text is read does not depend on what has been reported. -/
theorem unheard_readerOf (hagrees : load₁.Agrees load₂) (hframes : load₁.Frames disk)
    (kind : LibraryKind) (label text : String) (hw : w₁.unheard = w₂.unheard) :
    (readerOf load₁ kind label text w₁).unheard = (readerOf load₂ kind label text w₂).unheard := by
  have hstart : Reader.Alike
      (Reader.initial ⟨label, .library kind⟩ (namespaceOf label) text { w₁ with opened := [] })
      (Reader.initial ⟨label, .library kind⟩ (namespaceOf label) text { w₂ with opened := [] }) :=
    ⟨congrArg (fun w => (Reader.initial ⟨label, .library kind⟩ (namespaceOf label) text
      { w with opened := [] }).unheard) hw, Nat.succ_pos _⟩
  exact ((Reader.simulation_alike hagrees hframes _).ofText hstart).unheard

/-- What is made of a library text does not depend on what has been reported. -/
theorem unheard_compileText (hagrees : load₁.Agrees load₂) (hframes : load₁.Frames disk)
    (kind : LibraryKind) (label text : String) (hw : w₁.unheard = w₂.unheard) :
    (compileText load₁ kind label text w₁).1.unheard =
      (compileText load₂ kind label text w₂).1.unheard := by
  have hread := unheard_readerOf hagrees hframes kind label text hw
  rw [compileText_eq, compileText_eq]
  dsimp only
  rw [unheard_updateLibrary_recordAll, unheard_updateLibrary_recordAll, resolutionOf_unheard,
    unheard_released, hread, hw, ← unheard_released, ← resolutionOf_unheard]

/-- Compiling a library file does not depend on what has been reported, if its loaders agree. -/
theorem agrees_compileFile (hagrees : load₁.Agrees load₂) (hframes : load₁.Frames disk)
    (kind : LibraryKind) (path : String) (hw : w₁.unheard = w₂.unheard) :
    (compileFile load₁ disk kind path w₁).1.unheard =
        (compileFile load₂ disk kind path w₂).1.unheard ∧
      (compileFile load₁ disk kind path w₁).2 = (compileFile load₂ disk kind path w₂).2 := by
  obtain ⟨-, -, -, -, -, hsame⟩ := Workspace.eq_of_unheard_eq hw
  have hnoted : ∀ canonical,
      Workspace.unheard { w₁ with compiled := w₁.compiled.insert canonical } =
        Workspace.unheard { w₂ with compiled := w₂.compiled.insert canonical } := by
    intro canonical
    rw [hsame]
    exact congrArg (fun w => { w with compiled := w₂.compiled.insert canonical }) hw
  have hcompiles := compiles_compileFile load₁ disk kind path w₁
  generalize compileFile load₁ disk kind path w₁ = result at hcompiles ⊢
  cases hcompiles with
  | missing hfind =>
    rw [(Compiles.missing hfind).eq]
    exact ⟨hw, rfl⟩
  | known hfind hknown =>
    rw [(Compiles.known hfind (hsame ▸ hknown)).eq]
    exact ⟨hw, rfl⟩
  | unreadable hfind hnew htext =>
    rw [(Compiles.unreadable hfind (hsame ▸ hnew) htext).eq]
    exact ⟨hnoted _, rfl⟩
  | @compiled canonical text _ hfind hnew htext =>
    have hunheard := unheard_compileText hagrees hframes kind path text (hnoted canonical)
    have hupdate : ∀ (w : Workspace) (f : Library → Library),
        (w.updateLibrary kind f).unheard = w.unheard.updateLibrary kind f := by
      intro w f
      cases kind <;> rfl
    rw [(Compiles.compiled hfind (hsame ▸ hnew) htext).eq, hupdate, hupdate, hunheard]
    exact ⟨rfl, rfl⟩

/-- What a loader makes of a workspace does not depend on what has been reported. -/
theorem agrees_loader (disk : Disk) (n : Nat) : (loader disk n).Agrees (loader disk n) := by
  induction n with
  | zero => exact fun _ _ _ _ hw => ⟨hw, rfl⟩
  | succ n ih =>
    intro kind name w₁ w₂ hw
    obtain ⟨hsettings, -⟩ := Workspace.eq_of_unheard_eq hw
    have hloads := loads_loader disk n kind name w₁
    have hunfold : loader disk (n + 1) kind name w₂ =
        compileNamed (loader disk n) disk kind name w₂ := rfl
    rw [hunfold]
    generalize loader disk (n + 1) kind name w₁ = result at hloads ⊢
    cases hloads with
    | standard hname =>
      rw [(Loads.standard hname).eq]
      exact ⟨hw, rfl⟩
    | missing hname hpath =>
      rw [(Loads.missing hname (hsettings ▸ hpath)).eq]
      exact ⟨hw, rfl⟩
    | found hname hpath =>
      rw [(Loads.found hname (hsettings ▸ hpath)).eq]
      exact agrees_compileFile ih (frames_loader disk n) kind _ hw

end Loading

/-! ## Findings -/

namespace Reader

/-- What has been reported. -/
def findings (r : Reader) : List Finding := r.work.diagnostics.findings

/-- What is found wrong when the innermost definition is closed. -/
def closeFindings (r : Reader) : List Finding :=
  match r.work.opened with
  | [] => []
  | d :: _ =>
    if r.work.forest.contains d.path then [.usual (.duplicateSubcircuit d.name) d.origin] else []

section Findings

variable (r : Reader) (f : Finding)

/-- A finding is put behind those that have been reported. -/
theorem findings_report : (r.report f).findings = r.findings ++ [f] := by
  rw [report_eq]
  exact Diagnostics.findings_record _ _

/-- A finding adds to the errors if it is one. -/
theorem errors_report : (r.report f).errors = r.errors + errorCount [f] := by
  rw [report_eq]
  cases h : f.isError with
  | false => rw [errorCount, List.countP_singleton, h]
  | true => rw [errorCount, List.countP_singleton, h]

/-- A change of the innermost definition reports nothing. -/
theorem findings_modifyCurrent (g : Definition → Definition) :
    (r.modifyCurrent g).findings = r.findings := by
  rw [modifyCurrent_eq]
  rfl

/-- A change of the innermost definition counts no errors. -/
theorem errors_modifyCurrent (g : Definition → Definition) :
    (r.modifyCurrent g).errors = r.errors := by
  rw [modifyCurrent_eq]

/-- Closing a definition reports what is found wrong with it, and counts the errors among that. -/
theorem close_findings :
    r.close.findings = r.findings ++ r.closeFindings ∧
      r.close.errors = r.errors + errorCount r.closeFindings := by
  unfold closeFindings
  cases hopened : r.work.opened with
  | nil =>
    have hsame : r.close = r := by
      unfold close
      rw [hopened]
    rw [hsame]
    exact ⟨(List.append_nil _).symm, rfl⟩
  | cons d around =>
    dsimp only
    cases hcontains : r.work.forest.contains d.path with
    | true =>
      rw [close_of_contains hopened hcontains, findings_report, errors_report, if_pos rfl]
      exact ⟨rfl, rfl⟩
    | false =>
      rw [close_of_not_contains hopened hcontains, findings_modifyCurrent, errors_modifyCurrent]
      exact ⟨(List.append_nil _).symm, rfl⟩

/-- Settling reports nothing and counts no errors. -/
theorem findings_settle : r.settle.findings = r.findings ∧ r.settle.errors = r.errors := by
  unfold settle
  split <;> exact ⟨rfl, rfl⟩

end Findings

variable {r r₁ r₂ : Reader} {src : Source} {load : Loader} {disk : Disk}

/-- What the reader reports when a library has been loaded. -/
theorem loaded_eq (src : Source) (load : Loader) (r : Reader) (t : Token) :
    r.loaded src load t =
      reportAll { r with work := (load src.libraryKind t.text r.work).1 }
        ((load src.libraryKind t.text r.work).2.toList.map (Line.findingAt src.file t)) := by
  unfold loaded
  generalize load src.libraryKind t.text r.work = result
  obtain ⟨work, problem?⟩ := result
  cases problem? with
  | none => rfl
  | some problem => rfl

/-- Findings are put behind those that have been reported, and the errors among them are counted. -/
theorem findings_reportAll (r : Reader) (fs : List Finding) :
    (r.reportAll fs).findings = r.findings ++ fs ∧
      (r.reportAll fs).errors = r.errors + errorCount fs := by
  induction fs generalizing r with
  | nil => exact ⟨(List.append_nil _).symm, rfl⟩
  | cons f rest ih =>
    obtain ⟨hfindings, herrors⟩ := ih (r.report f)
    refine ⟨hfindings.trans ?_, herrors.trans ?_⟩
    · rw [findings_report, List.append_assoc]
      rfl
    · rw [errors_report, Nat.add_assoc, ← errorCount_append]
      rfl

/-- A property that concerns the findings and the number of errors alone is kept if findings may be
added, with their errors, and loading keeps it. -/
theorem keeps_of_findings {P : List Finding → Nat → Prop}
    (hadd : ∀ fs n f, P fs n → P (fs ++ f) (n + errorCount f))
    (hload : ∀ (r : Reader) (t : Token), P r.findings r.errors →
      P (load src.libraryKind t.text r.work).1.diagnostics.findings r.errors)
    (hframes : load.Frames disk) :
    Keeps src load fun r => 0 < r.work.opened.length ∧ P r.findings r.errors where
  opened := fun h => h.1
  report := by
    intro r f h _
    rw [length_opened_report, findings_report, errors_report]
    exact ⟨h.1, hadd _ _ _ h.2⟩
  change := by
    intro r g line h _ _
    rw [length_opened_modifyCurrent, findings_modifyCurrent, errors_modifyCurrent]
    exact h
  opens := by
    intro r first name heading h _ _
    exact ⟨Nat.succ_pos _, h.2⟩
  closes := by
    intro r h hdeep
    rw [length_opened_close, (close_findings r).1, (close_findings r).2]
    exact ⟨by omega, hadd _ _ _ h.2⟩
  load := by
    intro r t h _
    rw [loaded_eq, length_opened_reportAll, (findings_reportAll _ _).1, (findings_reportAll _ _).2]
    refine ⟨?_, hadd _ _ _ (hload r t h.2)⟩
    show 0 < (load src.libraryKind t.text r.work).1.opened.length
    rw [hframes.opened]
    exact h.1
  skipTo := fun _ h => h
  stop := fun h => h

end Reader

/-- The loader only adds to what has been reported. -/
def Loader.Extends (load : Loader) : Prop :=
  ∀ (kind : LibraryKind) (name : String) (w : Workspace),
    w.diagnostics.findings <+: (load kind name w).1.diagnostics.findings

namespace Loading

variable {load : Loader} {disk : Disk} {w : Workspace}

/-- Changing a library reports nothing. -/
theorem diagnostics_updateLibrary (w : Workspace) (kind : LibraryKind) (f : Library → Library) :
    (w.updateLibrary kind f).diagnostics = w.diagnostics := by
  cases kind <;> rfl

/-- Behind the compilation of a library text stand the findings of reading it and those of its
resolution. -/
theorem diagnostics_compileText (load : Loader) (kind : LibraryKind) (label text : String)
    (w : Workspace) :
    (compileText load kind label text w).1.diagnostics.findings =
      (readerOf load kind label text w).findings ++
        (resolutionOf kind label w (readerOf load kind label text w)).2 := by
  rw [compileText_eq, ← (Reader.findings_settle (readerOf load kind label text w)).1]
  generalize readerOf load kind label text w = r
  dsimp only
  rw [diagnostics_updateLibrary]
  exact Diagnostics.findings_recordAll _ _

/-- Compiling a library text only adds to what has been reported. -/
theorem extends_compileText (hload : load.Extends) (hframes : load.Frames disk)
    (kind : LibraryKind) (label text : String) (w : Workspace) :
    w.diagnostics.findings <+: (compileText load kind label text w).1.diagnostics.findings := by
  have hkeeps : Reader.Keeps ⟨label, .library kind⟩ load fun r =>
      0 < r.work.opened.length ∧ w.diagnostics.findings <+: r.findings :=
    Reader.keeps_of_findings (P := fun fs _ => w.diagnostics.findings <+: fs)
      (fun fs _ f h => h.trans (List.prefix_append fs f)) (fun r t h => h.trans (hload _ _ _))
      hframes
  have hread : 0 < _ ∧ w.diagnostics.findings <+: (readerOf load kind label text w).findings :=
    hkeeps.ofText ⟨Nat.succ_pos _, List.prefix_refl _⟩
  rw [diagnostics_compileText]
  exact hread.2.trans (List.prefix_append _ _)

/-- Compiling a library file only adds to what has been reported. -/
theorem extends_compileFile (hload : load.Extends) (hframes : load.Frames disk)
    (kind : LibraryKind) (path : String) (w : Workspace) :
    w.diagnostics.findings <+: (compileFile load disk kind path w).1.diagnostics.findings := by
  have hcompiles := compiles_compileFile load disk kind path w
  generalize compileFile load disk kind path w = result at hcompiles ⊢
  cases hcompiles with
  | missing _ | known _ _ | unreadable _ _ _ => exact List.prefix_refl _
  | @compiled canonical text _ _ _ _ =>
    rw [diagnostics_updateLibrary]
    exact extends_compileText hload hframes kind path text
      { w with compiled := w.compiled.insert canonical }

/-- Loaders of any nesting only add to what has been reported. -/
theorem extends_loader (disk : Disk) (n : Nat) : (loader disk n).Extends := by
  induction n with
  | zero => exact fun _ _ _ => List.prefix_refl _
  | succ n ih =>
    intro kind name w
    have hloads := loads_loader disk n kind name w
    generalize loader disk (n + 1) kind name w = result at hloads ⊢
    cases hloads with
    | standard _ | missing _ _ => exact List.prefix_refl _
    | found _ _ => exact extends_compileFile ih (frames_loader disk n) kind _ w

end Loading

namespace Reader

variable {src : Source} {load : Loader} {disk : Disk}

/-- A reader whose libraries keep what is found wrong in them to themselves is like one that hears
of it, and has reported what that one has reported besides and behind what was there before. -/
theorem simulation_silenced (hagrees : load.Agrees load) (hframes : load.Frames disk)
    (hextends : load.Extends) (src : Source) (before : List Finding) :
    Simulation src load load.silenced
      fun r₁ r₂ => Alike r₁ r₂ ∧ (before ++ r₂.findings).Sublist r₁.findings := by
  have hsim := simulation_alike hagrees.silenced hframes src
  constructor
  · exact fun h => hsim.view h.1
  · exact fun h => hsim.ended h.1
  · exact fun h => hsim.opened h.1
  · intro r₁ r₂ f h hf
    refine ⟨hsim.report f h.1 hf, ?_⟩
    rw [findings_report, findings_report, ← List.append_assoc]
    exact h.2.append (List.Sublist.refl _)
  · intro r₁ r₂ g line h hline hg
    refine ⟨hsim.change h.1 hline hg, ?_⟩
    rw [findings_modifyCurrent, findings_modifyCurrent]
    exact h.2
  · intro r₁ r₂ first name heading h hname hnamed
    exact ⟨hsim.opens first heading h.1 hname hnamed, h.2⟩
  · intro r₁ r₂ h hdeep
    refine ⟨hsim.closes h.1 hdeep, ?_⟩
    have hsame : r₁.closeFindings = r₂.closeFindings := by
      show r₁.unheard.closeFindings = r₂.unheard.closeFindings
      rw [h.1.unheard]
    rw [(close_findings r₁).1, (close_findings r₂).1, hsame, ← List.append_assoc]
    exact h.2.append (List.Sublist.refl _)
  · intro r₁ r₂ t h ht
    refine ⟨hsim.load h.1 ht, ?_⟩
    have hwork : r₁.work.unheard = r₂.work.unheard := congrArg Reader.work h.1.unheard
    have hproblem := (hagrees src.libraryKind t.text r₁.work r₂.work hwork).2
    have hmore := hextends src.libraryKind t.text r₁.work
    rw [loaded_eq, loaded_eq, (findings_reportAll _ _).1, (findings_reportAll _ _).1, hproblem,
      ← List.append_assoc]
    exact (h.2.trans hmore.sublist).append (List.Sublist.refl _)
  · exact fun depth h => ⟨hsim.skipTo depth h.1, h.2⟩
  · exact fun h => ⟨hsim.stop h.1, h.2⟩

/-- If the libraries keep what is found wrong in them to themselves, all errors that have been
reported are those of the text. -/
theorem keeps_counted (hframes : load.Frames disk) (src : Source) :
    Keeps src load.silenced
      fun r => 0 < r.work.opened.length ∧ errorCount r.findings = r.errors :=
  keeps_of_findings (P := fun fs n => errorCount fs = n)
    (fun fs n f h => by rw [errorCount_append, h]) (fun _ _ h => h) hframes.silenced

end Reader

end FlatNet
