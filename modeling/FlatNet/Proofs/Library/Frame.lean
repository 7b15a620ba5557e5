import FlatNet.Proofs.Library.Files
import FlatNet.Proofs.Reading.Run
import FlatNet.Proofs.Scope

/-!
# What loading a library leaves alone

A library text is read under a path of its own, and everything under that path is taken out of the
forest again.  So loading adds nothing to the forest and changes nothing that is open; it can only
take out definitions under the path of a file that has not been compiled yet.  `Frame` says this,
`frames_loader` is the induction on the nesting of libraries.
-/

set_option autoImplicit false

namespace FlatNet

namespace Loading

/-! ## Namespaces -/

/-- A namespace is one part of a path: there is no slash in it. -/
theorem slash_not_mem_namespaceOf (label : String) : '/' ∉ (namespaceOf label).toList := by
  unfold namespaceOf
  rw [String.toList_append, List.mem_append]
  rintro (h | h)
  · exact absurd h (by decide)
  · rw [String.toList_ofList] at h
    obtain ⟨c, -, hc⟩ := List.mem_map.1 h
    split at hc
    · exact absurd hc (by decide)
    · rename_i hne
      exact hne (.inl hc)

/-- A namespace can be told from the paths of a netlist by its colon. -/
theorem colon_mem_namespaceOf (label : String) : ':' ∈ (namespaceOf label).toList := by
  unfold namespaceOf
  rw [String.toList_append]
  exact List.mem_append_left _ (by decide)

/-- No namespace is empty. -/
theorem namespaceOf_ne_empty (label : String) : namespaceOf label ≠ "" := by
  intro h
  have hmem := colon_mem_namespaceOf label
  rw [h] at hmem
  exact absurd hmem (by decide)

/-- What belongs to a namespace is the namespace itself and the paths below it. -/
theorem belongsTo_iff {space path : String} :
    belongsTo space path = true ↔
      path = space ∨ ∃ rest, path.toList = space.toList ++ '/' :: rest := by
  unfold belongsTo
  rw [Bool.or_eq_true, beq_iff_eq, Scope.isWithin_iff]

/-- A namespace belongs to itself. -/
theorem belongsTo_self (space : String) : belongsTo space space = true :=
  belongsTo_iff.2 (.inl rfl)

/-- What is defined inside something that belongs to a text belongs to it as well. -/
theorem belongsTo_child {label path : String} (h : belongsTo (namespaceOf label) path = true)
    (name : String) : belongsTo (namespaceOf label) (Scope.child path name) = true := by
  rw [belongsTo_iff] at h ⊢
  rcases h with rfl | ⟨rest, hrest⟩
  · exact .inr ⟨_, Scope.toList_child (namespaceOf_ne_empty label) name⟩
  · have hne : path ≠ "" := by
      rintro rfl
      exact absurd (congrArg List.length hrest) (by simp)
    refine .inr ⟨rest ++ '/' :: name.toList, ?_⟩
    rw [Scope.toList_child hne, hrest, List.append_assoc]
    rfl

/-- A path belongs to the text that its first name says. -/
theorem takeWhile_of_belongsTo {label path : String}
    (h : belongsTo (namespaceOf label) path = true) :
    path.toList.takeWhile (· != '/') = (namespaceOf label).toList := by
  have hall : ∀ c ∈ (namespaceOf label).toList, (c != '/') = true := by
    intro c hc
    refine bne_iff_ne.2 ?_
    rintro rfl
    exact slash_not_mem_namespaceOf label hc
  rcases belongsTo_iff.1 h with rfl | ⟨rest, hrest⟩
  · exact List.takeWhile_eq_self_iff.2 hall
  · rw [hrest, List.takeWhile_append_of_pos hall, List.takeWhile_cons_of_neg (by decide),
      List.append_nil]

/-- No path belongs to two texts with different namespaces. -/
theorem namespaceOf_eq_of_belongsTo {label label' path : String}
    (h : belongsTo (namespaceOf label) path = true)
    (h' : belongsTo (namespaceOf label') path = true) : namespaceOf label = namespaceOf label' :=
  String.toList_inj.1 ((takeWhile_of_belongsTo h).symm.trans (takeWhile_of_belongsTo h'))

/-- Paths that belong to a text have a colon. -/
theorem colon_mem_of_belongsTo {label path : String}
    (h : belongsTo (namespaceOf label) path = true) : ':' ∈ path.toList := by
  rcases belongsTo_iff.1 h with rfl | ⟨rest, hrest⟩
  · exact colon_mem_namespaceOf label
  · rw [hrest]
    exact List.mem_append_left _ (colon_mem_namespaceOf label)

/-! ## Frames -/

/-- No file that is still to be compiled has the path in its namespace. -/
def Spared (disk : Disk) (compiled : NameSet) (path : String) : Prop :=
  ∀ (file canonical : String) (object : DiskObject), disk.find? file = some (canonical, object) →
    canonical ∉ compiled → belongsTo (namespaceOf file) path = false

/-- Of the definitions of a text that is identified by its label, all have stayed or none. -/
def AllOrNone (label : String) (w w' : Workspace) : Prop :=
  (∀ path : String, belongsTo (namespaceOf label) path = true →
    w'.forest[path]? = w.forest[path]?) ∨
  ∀ path : String, belongsTo (namespaceOf label) path = true → w'.forest[path]? = none

/-- What is kept of a workspace, apart from definitions at paths of one's own: settings and the
files compiled so far stay, definitions are at most taken out, and only at paths that are not
spared; if some of a text are taken out, all of them are. -/
structure Frame (disk : Disk) (own : String → Prop) (w w' : Workspace) : Prop where
  settings : w'.settings = w.settings
  compiled : ∀ file ∈ w.compiled, file ∈ w'.compiled
  forest : ∀ (path : String) (d : Definition), ¬own path → w'.forest[path]? = some d →
    w.forest[path]? = some d
  spared : ∀ path : String, ¬own path → Spared disk w.compiled path →
    w'.forest[path]? = w.forest[path]?
  whole : ∀ label : String,
    (∀ path, own path → belongsTo (namespaceOf label) path = false) → AllOrNone label w w'

variable {disk : Disk} {own own' : String → Prop} {w w' w'' : Workspace}

/-- With more files compiled more paths are spared. -/
theorem Spared.mono {compiled compiled' : NameSet} {path : String}
    (h : Spared disk compiled path) (hsub : ∀ file ∈ compiled, file ∈ compiled') :
    Spared disk compiled' path :=
  fun file canonical object hfind hnot =>
    h file canonical object hfind fun hmem => hnot (hsub _ hmem)

/-- If all or none of a text have stayed twice, all or none have stayed. -/
theorem AllOrNone.trans {label : String} (h : AllOrNone label w w')
    (h' : AllOrNone label w' w'') : AllOrNone label w w'' := by
  rcases h' with hsame' | hnone'
  · rcases h with hsame | hnone
    · exact .inl fun path hpath => (hsame' path hpath).trans (hsame path hpath)
    · exact .inr fun path hpath => (hsame' path hpath).trans (hnone path hpath)
  · exact .inr hnone'

/-- A workspace is kept by doing nothing. -/
theorem Frame.refl (disk : Disk) (own : String → Prop) (w : Workspace) : Frame disk own w w :=
  ⟨rfl, fun _ h => h, fun _ _ _ h => h, fun _ _ _ => rfl, fun _ _ => .inl fun _ _ => rfl⟩

/-- A workspace is kept apart from more paths as well. -/
theorem Frame.mono (h : Frame disk own w w') (hsub : ∀ path, own path → own' path) :
    Frame disk own' w w' where
  settings := h.settings
  compiled := h.compiled
  forest := fun path d hnot => h.forest path d fun hown => hnot (hsub path hown)
  spared := fun path hnot => h.spared path fun hown => hnot (hsub path hown)
  whole := fun label hnot => h.whole label fun path hown => hnot path (hsub path hown)

/-- What is kept twice is kept. -/
theorem Frame.trans (h : Frame disk own w w') (h' : Frame disk own w' w'') :
    Frame disk own w w'' where
  settings := h'.settings.trans h.settings
  compiled := fun file hfile => h'.compiled file (h.compiled file hfile)
  forest := fun path d hnot hd => h.forest path d hnot (h'.forest path d hnot hd)
  spared := fun path hnot hspared =>
    (h'.spared path hnot (hspared.mono h.compiled)).trans (h.spared path hnot hspared)
  whole := fun label hnot => (h.whole label hnot).trans (h'.whole label hnot)

/-- Frames are about settings, compiled files and the forest. -/
theorem Frame.congr (h : Frame disk own w w') (hsettings : w''.settings = w'.settings)
    (hcompiled : w''.compiled = w'.compiled) (hforest : w''.forest = w'.forest) :
    Frame disk own w w'' := by
  obtain ⟨settings, compiled, forest, spared, whole⟩ := h
  refine ⟨hsettings.trans settings, ?_, ?_, ?_, ?_⟩
  · rw [hcompiled]
    exact compiled
  · rw [hforest]
    exact forest
  · rw [hforest]
    exact spared
  · unfold AllOrNone
    rw [hforest]
    exact whole

/-- A definition may be added at a path of one's own. -/
theorem Frame.insert (h : Frame disk own w w') {path : String} (hown : own path)
    (d : Definition) {opened : List Definition} :
    Frame disk own w { w' with opened, forest := w'.forest.insert path d } := by
  have hother : ∀ other : String, ¬own other → (w'.forest.insert path d)[other]? =
      w'.forest[other]? := by
    intro other hnot
    rw [Std.ExtTreeMap.getElem?_insert, if_neg]
    intro heq
    rw [← Std.LawfulEqCmp.compare_eq_iff_eq.1 heq] at hnot
    exact hnot hown
  refine ⟨h.settings, h.compiled, fun other e hnot he => ?_, fun other hnot hspared => ?_,
    fun label hnot => ?_⟩
  · change (w'.forest.insert path d)[other]? = some e at he
    rw [hother other hnot] at he
    exact h.forest other e hnot he
  · show (w'.forest.insert path d)[other]? = w.forest[other]?
    rw [hother other hnot]
    exact h.spared other hnot hspared
  · refine (h.whole label hnot).trans (.inl fun other hbelongs => hother other fun hother => ?_)
    rw [hnot other hother] at hbelongs
    exact absurd hbelongs (by simp)

end Loading

open Loading

/-- The loader changes nothing that is open, and of the forest at most what is not spared. -/
structure Loader.Frames (load : Loader) (disk : Disk) : Prop where
  frame : ∀ kind name w, Frame disk (fun _ => False) w (load kind name w).1
  opened : ∀ kind name w, (load kind name w).1.opened = w.opened

namespace Reader

/-- The state of reading a library text: everything that is open belongs to the text, and nothing
else has been touched, apart from what further libraries take out. -/
structure Within (disk : Disk) (label : String) (w : Workspace) (r : Reader) : Prop where
  nonempty : 0 < r.work.opened.length
  opened : ∀ d ∈ r.work.opened, belongsTo (namespaceOf label) d.path = true
  frame : Frame disk (fun path => belongsTo (namespaceOf label) path = true) w r.work

variable {disk : Disk} {label : String} {w : Workspace} {r : Reader}

/-- What holds of all definitions holds with the first one changed, if the change keeps it. -/
theorem forall_mem_modifyHead {ds : List Definition} {P : Definition → Prop}
    {g : Definition → Definition} (h : ∀ d ∈ ds, P d) (hg : ∀ d, P d → P (g d)) :
    ∀ d ∈ ds.modifyHead g, P d := by
  cases ds with
  | nil => exact h
  | cons d around =>
    obtain ⟨hd, haround⟩ := List.forall_mem_cons.1 h
    exact List.forall_mem_cons.2 ⟨hg d hd, haround⟩

/-- A change of the innermost definition, which keeps its path, stays within the text. -/
theorem Within.modifyCurrent (h : r.Within disk label w) {g : Definition → Definition}
    (hg : ∀ d, (g d).path = d.path) : (r.modifyCurrent g).Within disk label w where
  nonempty := by
    rw [length_opened_modifyCurrent]
    exact h.nonempty
  opened := by
    rw [modifyCurrent_eq]
    refine forall_mem_modifyHead h.opened fun d hd => ?_
    rwa [hg]
  frame := by
    rw [modifyCurrent_eq]
    exact h.frame.congr rfl rfl rfl

/-- A finding stays within the text. -/
theorem Within.report (h : r.Within disk label w) (f : Finding) :
    (r.report f).Within disk label w where
  nonempty := by
    rw [length_opened_report]
    exact h.nonempty
  opened := by
    rw [report_eq]
    dsimp only
    split
    · exact forall_mem_modifyHead h.opened fun d hd => hd
    · exact h.opened
  frame := by
    rw [report_eq]
    exact h.frame.congr rfl rfl rfl

/-- Closing a definition of the text stays within it. -/
theorem Within.close (h : r.Within disk label w) (hdeep : 1 < r.work.opened.length) :
    r.close.Within disk label w := by
  cases hopened : r.work.opened with
  | nil =>
    rw [hopened] at hdeep
    exact absurd hdeep (Nat.not_lt_zero _)
  | cons d around =>
    have hall := h.opened
    rw [hopened] at hall hdeep
    obtain ⟨hd, haround⟩ := List.forall_mem_cons.1 hall
    have hnonempty : 0 < around.length := Nat.lt_of_succ_lt_succ hdeep
    cases hcontains : r.work.forest.contains d.path with
    | true =>
      have hdropped : Within disk label w { r with work := { r.work with opened := around } } :=
        ⟨hnonempty, haround, h.frame.congr rfl rfl rfl⟩
      rw [close_of_contains hopened hcontains]
      exact hdropped.report _
    | false =>
      have hadded : Within disk label w
          { r with work := { r.work with
              opened := around, forest := r.work.forest.insert d.path d } } :=
        ⟨hnonempty, haround, h.frame.insert hd d⟩
      rw [close_of_not_contains hopened hcontains]
      exact hadded.modifyCurrent fun _ => rfl

/-- Loading a further library stays within the text, if the loader has a frame. -/
theorem Within.loaded (h : r.Within disk label w) {load : Loader} (hload : load.Frames disk)
    (src : Source) (t : Token) : (r.loaded src load t).Within disk label w := by
  have hframe := hload.frame src.libraryKind t.text r.work
  have hopened := hload.opened src.libraryKind t.text r.work
  unfold Reader.loaded
  revert hframe hopened
  generalize load src.libraryKind t.text r.work = result
  obtain ⟨work, problem?⟩ := result
  intro hframe hopened
  have hwork : Within disk label w { r with work := work } := by
    refine ⟨?_, ?_, h.frame.trans (hframe.mono fun _ hfalse => hfalse.elim)⟩
    · rw [hopened]
      exact h.nonempty
    · rw [hopened]
      exact h.opened
  cases problem? with
  | none => exact hwork
  | some problem => exact hwork.report _

/-- The sub-circuit that a heading opens lies within the text. -/
theorem Within.push (h : r.Within disk label w) (src : Source) (first name : Token)
    (heading : Line.Heading) :
    (r.push (opening src r.view first name heading)).Within disk label w := by
  refine ⟨Nat.succ_pos _, List.forall_mem_cons.2 ⟨?_, h.opened⟩, h.frame.congr rfl rfl rfl⟩
  show belongsTo (namespaceOf label) (Scope.child r.view.current.path name.text) = true
  refine belongsTo_child ?_ _
  rw [current_view]
  show belongsTo (namespaceOf label) r.current.path = true
  unfold Reader.current
  cases hopened : r.work.opened with
  | nil => exact absurd (congrArg List.length hopened) (Nat.ne_of_gt h.nonempty)
  | cons d around => exact h.opened d (by rw [hopened]; exact List.mem_cons_self)

/-- Whatever is done to the reader of a library text stays within the text. -/
theorem keeps_within {load : Loader} (hload : load.Frames disk) (src : Source) (w : Workspace) :
    Keeps src load (Within disk label w) where
  opened := fun h => h.nonempty
  report := fun f h _ => h.report f
  change := fun h _ hg => h.modifyCurrent hg.path
  opens := fun first _ heading h _ _ => h.push src first _ heading
  closes := fun h hdeep => h.close hdeep
  load := fun {_ t} h _ => h.loaded hload src t
  skipTo := fun _ h => ⟨h.nonempty, h.opened, h.frame⟩
  stop := fun h => ⟨h.nonempty, h.opened, h.frame⟩

end Reader

namespace Loading

variable {disk : Disk} {load : Loader} {w : Workspace}

/-- What remains of a forest are the definitions of other texts. -/
theorem getElem?_remaining (forest : Forest) (space path : String) :
    (remaining forest space)[path]? = if belongsTo space path then none else forest[path]? := by
  unfold remaining
  rw [Std.ExtTreeMap.getElem?_filter']
  cases belongsTo space path with
  | true => cases forest[path]? <;> rfl
  | false => cases forest[path]? <;> rfl

/-- The reader at the end of a library text. -/
def readerOf (load : Loader) (kind : LibraryKind) (label text : String) (w : Workspace) : Reader :=
  Reader.ofText load ⟨label, .library kind⟩ (namespaceOf label) text { w with opened := [] }

/-- The workspace without the definitions of a library text that has been read. -/
def released (label : String) (w : Workspace) (r : Reader) : Workspace :=
  { r.settle.work with
    opened := w.opened
    forest := remaining r.settle.work.forest (namespaceOf label) }

/-- The definitions of a library text after resolution, and what was found wrong with them. -/
def resolutionOf (kind : LibraryKind) (label : String) (w : Workspace) (r : Reader) :
    Forest × List Finding :=
  (extracted r.settle.work.forest (namespaceOf label)).resolve
    (surroundings kind.store (released label w r))

/-- A library text is compiled by reading it, resolving its definitions and adding them to the
library. -/
theorem compileText_eq (load : Loader) (kind : LibraryKind) (label text : String)
    (w : Workspace) :
    compileText load kind label text w =
      let r := readerOf load kind label text w
      let resolved := resolutionOf kind label w r
      (((released label w r).recordAll resolved.2).updateLibrary kind (·.promote resolved.1),
        r.errors + errorCount resolved.2) := by
  have hread := Reader.readSource_eq load ⟨label, .library kind⟩ (namespaceOf label) text
    { w with opened := [] }
  unfold compileText resolutionOf released readerOf
  dsimp only
  rw [hread]

/-- The reader of a library text at its end stays within the text. -/
theorem within_readerOf (hload : load.Frames disk) (kind : LibraryKind) (label text : String)
    (w : Workspace) : (readerOf load kind label text w).Within disk label w := by
  refine (Reader.keeps_within hload _ w).ofText ⟨Nat.succ_pos _, ?_, ?_⟩
  · exact List.forall_mem_singleton.2 (belongsTo_self _)
  · exact (Frame.refl disk _ w).congr rfl rfl rfl

/-- Settling a library text adds its own definition at its own path. -/
theorem frame_settle {label : String} {r : Reader} (h : r.Within disk label w) :
    Frame disk (fun path => belongsTo (namespaceOf label) path = true) w r.settle.work := by
  unfold Reader.settle
  split
  · exact h.frame
  · rename_i root around hopened
    exact h.frame.insert (h.opened root (by rw [hopened]; exact List.mem_cons_self)) root

/-- Without its definitions a library text leaves the forest as it was, what further libraries have
taken out apart. -/
theorem frame_released {label : String} {r : Reader} (h : r.Within disk label w) :
    Frame disk (fun path => belongsTo (namespaceOf label) path = true) w (released label w r) ∧
      ∀ (path : String) (d : Definition), (released label w r).forest[path]? = some d →
        w.forest[path]? = some d := by
  have hframe := frame_settle h
  have hget : ∀ path : String, (released label w r).forest[path]? =
      if belongsTo (namespaceOf label) path then none else r.settle.work.forest[path]? :=
    fun path => getElem?_remaining _ _ path
  refine ⟨⟨hframe.settings, hframe.compiled, fun path d hnot hd => ?_,
    fun path hnot hspared => ?_, fun other hnot => ?_⟩, fun path d hd => ?_⟩
  · rw [hget, if_neg hnot] at hd
    exact hframe.forest path d hnot hd
  · rw [hget, if_neg hnot]
    exact hframe.spared path hnot hspared
  · refine (hframe.whole other hnot).trans (.inl fun path hbelongs => ?_)
    rw [hget, if_neg]
    intro hown
    rw [hnot path hown] at hbelongs
    exact absurd hbelongs (by simp)
  · rw [hget] at hd
    split at hd
    · exact absurd hd (by simp)
    · rename_i hnot
      exact hframe.forest path d hnot hd

/-- A library is neither settings nor files nor definitions of the forest. -/
theorem updateLibrary_frame (kind : LibraryKind) (w : Workspace) (f : Library → Library) :
    (w.updateLibrary kind f).settings = w.settings ∧
      (w.updateLibrary kind f).compiled = w.compiled ∧
      (w.updateLibrary kind f).forest = w.forest ∧ (w.updateLibrary kind f).opened = w.opened := by
  cases kind with
  | builtin => exact ⟨rfl, rfl, rfl, rfl⟩
  | user => exact ⟨rfl, rfl, rfl, rfl⟩

/-- Nor are findings. -/
theorem updateLibrary_recordAll_frame (kind : LibraryKind) (w : Workspace)
    (findings : List Finding) (f : Library → Library) :
    let w' := (w.recordAll findings).updateLibrary kind f
    w'.settings = w.settings ∧ w'.compiled = w.compiled ∧ w'.forest = w.forest ∧
      w'.opened = w.opened := updateLibrary_frame kind (w.recordAll findings) f

/-- Compiling a library text leaves everything outside its namespace alone, and adds nothing to the
forest; in its namespace nothing is left. -/
theorem frame_compileText (hload : load.Frames disk) (kind : LibraryKind) (label text : String)
    (w : Workspace) :
    Frame disk (fun path => belongsTo (namespaceOf label) path = true) w
        (compileText load kind label text w).1 ∧
      (∀ (path : String) (d : Definition),
        (compileText load kind label text w).1.forest[path]? = some d →
          w.forest[path]? = some d ∧ belongsTo (namespaceOf label) path = false) ∧
      (compileText load kind label text w).1.opened = w.opened := by
  obtain ⟨hframe, hforest⟩ := frame_released (within_readerOf hload kind label text w)
  rw [compileText_eq]
  dsimp only
  generalize readerOf load kind label text w = r at hframe hforest ⊢
  obtain ⟨hsettings, hcompiled, hsame, hopened⟩ := updateLibrary_recordAll_frame kind
    (released label w r) (resolutionOf kind label w r).2
    (·.promote (resolutionOf kind label w r).1)
  refine ⟨hframe.congr hsettings hcompiled hsame, fun path d hd => ?_, hopened⟩
  rw [hsame] at hd
  refine ⟨hforest path d hd, Bool.eq_false_iff.2 fun hbelongs => ?_⟩
  have hget : (remaining r.settle.work.forest (namespaceOf label))[path]? = some d := hd
  rw [getElem?_remaining, if_pos hbelongs] at hget
  exact absurd hget (by simp)

/-- Compiling a library file keeps the workspace, and what is open altogether. -/
theorem frame_compileFile (hload : load.Frames disk) (kind : LibraryKind) (path : String)
    (w : Workspace) :
    Frame disk (fun _ => False) w (compileFile load disk kind path w).1 ∧
      (compileFile load disk kind path w).1.opened = w.opened := by
  have hgrows : ∀ canonical, ∀ file ∈ w.compiled, file ∈ w.compiled.insert canonical :=
    fun _ file hfile => Std.ExtTreeSet.mem_insert.2 (.inr hfile)
  have hcompiles := compiles_compileFile load disk kind path w
  generalize compileFile load disk kind path w = result at hcompiles ⊢
  cases hcompiles with
  | missing _ | known _ _ => exact ⟨Frame.refl _ _ _, rfl⟩
  | unreadable _ _ _ =>
    exact ⟨⟨rfl, hgrows _, fun _ _ _ h => h, fun _ _ _ => rfl,
      fun _ _ => .inl fun _ _ => rfl⟩, rfl⟩
  | @compiled canonical text object hfind hnew _ =>
    obtain ⟨hframe, hforest, hopened⟩ := frame_compileText hload kind path text
      { w with compiled := w.compiled.insert canonical }
    have hnoted : Frame disk (fun _ => False) w (compileText load kind path text
        { w with compiled := w.compiled.insert canonical }).1 := by
      refine ⟨hframe.settings,
        fun file hfile => hframe.compiled file (hgrows canonical file hfile),
        fun p d _ hd => (hforest p d hd).1, fun p _ hspared => ?_, fun label _ => ?_⟩
      · have hother := hspared path canonical object hfind hnew
        exact hframe.spared p (by rw [hother]; simp) (hspared.mono (hgrows canonical))
      · by_cases heq : namespaceOf label = namespaceOf path
        · -- the library has the namespace: everything in it is taken out
          refine .inr fun p hp => Option.eq_none_iff_forall_not_mem.2 fun d hd => ?_
          rw [heq] at hp
          rw [(hforest p d hd).2] at hp
          exact absurd hp (by simp)
        · refine hframe.whole label fun p hp => Bool.eq_false_iff.2 fun hbelongs => ?_
          exact heq (namespaceOf_eq_of_belongsTo hbelongs hp)
    obtain ⟨hsettings, hcompiled, hsame, hstays⟩ := updateLibrary_frame kind
      (compileText load kind path text
        { w with compiled := w.compiled.insert canonical }).1 (·.noteFile canonical)
    exact ⟨hnoted.congr hsettings hcompiled hsame, hstays.trans hopened⟩

/-- Loaders of any nesting leave alone what is spared. -/
theorem frames_loader (disk : Disk) (n : Nat) : (loader disk n).Frames disk := by
  induction n with
  | zero => exact ⟨fun _ _ w => Frame.refl _ _ w, fun _ _ _ => rfl⟩
  | succ n ih =>
    have hboth : ∀ kind name w, Frame disk (fun _ => False) w (loader disk (n + 1) kind name w).1 ∧
        (loader disk (n + 1) kind name w).1.opened = w.opened := by
      intro kind name w
      have hloads := loads_loader disk n kind name w
      generalize loader disk (n + 1) kind name w = result at hloads ⊢
      cases hloads with
      | standard _ | missing _ _ => exact ⟨Frame.refl _ _ _, rfl⟩
      | found _ _ => exact frame_compileFile ih kind _ w
    exact ⟨fun kind name w => (hboth kind name w).1, fun kind name w => (hboth kind name w).2⟩

/-- A path without a colon is in no namespace. -/
theorem spared_of_colon_not_mem {compiled : NameSet} {path : String} (h : ':' ∉ path.toList) :
    Spared disk compiled path := by
  intro file canonical object _ _
  cases hbelongs : belongsTo (namespaceOf file) path with
  | true => exact absurd (colon_mem_of_belongsTo hbelongs) h
  | false => rfl

end Loading

/-- All definitions of the forest are those of a netlist: their paths have no colon. -/
def Forest.Plain (forest : Forest) : Prop := ∀ path ∈ forest, ':' ∉ path.toList

/-- Loading leaves a forest with the definitions of a netlist as it is. -/
theorem Forest.Plain.eq_of_frame {disk : Disk} {w w' : Workspace} (h : w.forest.Plain)
    (hframe : Frame disk (fun _ => False) w w') : w'.forest = w.forest := by
  refine Std.ExtTreeMap.ext_getElem? fun path => ?_
  by_cases hcolon : ':' ∈ path.toList
  · have hnone : w.forest[path]? = none := by
      refine Std.ExtTreeMap.getElem?_eq_none fun hmem => ?_
      exact h path hmem hcolon
    rw [hnone]
    refine Option.eq_none_iff_forall_not_mem.2 fun d hd => ?_
    have hold := hframe.forest path d (fun hfalse => hfalse) hd
    rw [hnone] at hold
    exact absurd hold (by simp)
  · exact hframe.spared path (fun hfalse => hfalse) (spared_of_colon_not_mem hcolon)

end FlatNet
