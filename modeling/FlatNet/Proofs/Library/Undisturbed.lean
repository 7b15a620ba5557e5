import FlatNet.Proofs.Library.Parsed
import FlatNet.Proofs.Reading.Netlist

/-!
# What loading does to the text that loads

A library text is read into the forest of the text that refers to it, under the namespace of its own
label, and everything in that namespace is taken out again.  So when a library has been loaded, what
is open is as it was before, and the forest has lost the definitions in the namespaces of the texts
parsed meanwhile, and nothing else (`evicts_loader`).  Labels that only differ in their separators
have the same namespace, so one text may take out the definitions of another one.
-/

set_option autoImplicit false

namespace FlatNet

namespace Loading

/-- The path lies in the namespace of one of the labels. -/
def isClaimed (labels : List String) (path : String) : Bool :=
  labels.any fun label => belongsTo (namespaceOf label) path

/-- The second forest is the first one without the definitions in the namespaces of the labels. -/
def Evicts (labels : List String) (forest forest' : Forest) : Prop :=
  ∀ path : String, forest'[path]? = if isClaimed labels path then none else forest[path]?

/-- A path lies in the namespace of one of some labels or of one of the others. -/
theorem isClaimed_append (labels labels' : List String) (path : String) :
    isClaimed (labels ++ labels') path = (isClaimed labels path || isClaimed labels' path) :=
  List.any_append

/-- A path lies in the first namespace or in one of the others. -/
theorem isClaimed_cons (label : String) (labels : List String) (path : String) :
    isClaimed (label :: labels) path =
      (belongsTo (namespaceOf label) path || isClaimed labels path) := List.any_cons

variable {labels labels' : List String} {forest forest' forest'' : Forest}

/-- Without labels nothing is taken out. -/
theorem Evicts.refl (forest : Forest) : Evicts [] forest forest := fun _ => rfl

/-- The forest stays as it is exactly if no definition in it is in one of the namespaces. -/
theorem Evicts.eq_iff (h : Evicts labels forest forest') :
    forest' = forest ↔ ∀ path ∈ forest, isClaimed labels path = false := by
  constructor
  · rintro rfl path hmem
    rw [← Bool.not_eq_true]
    intro hclaimed
    have hnone := h path
    rw [if_pos hclaimed] at hnone
    rw [Std.ExtTreeMap.mem_iff_isSome_getElem?, hnone] at hmem
    exact absurd hmem (by simp)
  · intro hfree
    apply Std.ExtTreeMap.ext_getElem?
    intro path
    rw [h path]
    by_cases hmem : path ∈ forest
    · rw [hfree path hmem]
      rfl
    · rw [Std.ExtTreeMap.getElem?_eq_none hmem, ite_self]

end Loading

open Loading

/-- Loading takes out of the forest what is in the namespaces of the files that are parsed. -/
def Loader.Evicts (load : Loader) (journal : Journal LibraryFile) : Prop :=
  ∀ kind name (w : Workspace),
    Loading.Evicts ((journal kind name w).map LibraryFile.path) w.forest (load kind name w).1.forest

namespace Reader

/-- While a library text is read, the forest outside its namespace is the one before, without what
the files parsed so far have taken out. -/
structure Sifted (disk : Disk) (label : String) (w : Workspace) (files : List LibraryFile)
    (r : Reader) : Prop where
  within : r.Within disk label w
  forest : ∀ path : String, belongsTo (namespaceOf label) path = false →
    r.work.forest[path]? =
      if isClaimed (files.map LibraryFile.path) path then none else w.forest[path]?

variable {disk : Disk} {label : String} {w : Workspace} {files : List LibraryFile} {r : Reader}

/-- Closing a sub-circuit adds it to the namespace of the text. -/
theorem forest_close_of_not_belongsTo (h : r.Within disk label w)
    (hdeep : 1 < r.work.opened.length) {path : String}
    (hpath : belongsTo (namespaceOf label) path = false) :
    r.close.work.forest[path]? = r.work.forest[path]? := by
  cases hopened : r.work.opened with
  | nil =>
    rw [hopened] at hdeep
    exact absurd hdeep (Nat.not_lt_zero _)
  | cons d around =>
    have hown : belongsTo (namespaceOf label) d.path = true :=
      h.opened d (by rw [hopened]; exact List.mem_cons_self)
    have hne : d.path ≠ path := by
      rintro rfl
      rw [hown] at hpath
      exact absurd hpath (by simp)
    cases hcontains : r.work.forest.contains d.path with
    | true =>
      rw [close_of_contains hopened hcontains, report_eq]
    | false =>
      rw [close_of_not_contains hopened hcontains, modifyCurrent_eq]
      exact NameMap.getElem?_insert_of_ne hne _

/-- Behind a library the forest is the one that the loader leaves. -/
theorem forest_loaded (src : Source) (load : Loader) (r : Reader) (t : Token) :
    (r.loaded src load t).work.forest = (load src.libraryKind t.text r.work).1.forest := by
  unfold loaded
  generalize load src.libraryKind t.text r.work = result
  obtain ⟨work, problem?⟩ := result
  cases problem? with
  | none => rfl
  | some problem =>
    dsimp only
    rw [report_eq]

/-- While a library text is read, the forest outside its namespace is sifted by the files parsed so
far. -/
theorem noting_sifted {load : Loader} {journal : Journal LibraryFile}
    (hevicts : load.Evicts journal) (hload : load.Frames disk) (src : Source) (w : Workspace) :
    Noting src load journal (Sifted disk label w) where
  opened := fun h => h.within.nonempty
  report := by
    intro files r f h _
    refine ⟨h.within.report f, ?_⟩
    rw [report_eq]
    exact h.forest
  change := by
    intro files r g line h _ hg
    refine ⟨h.within.modifyCurrent hg.path, ?_⟩
    rw [modifyCurrent_eq]
    exact h.forest
  opens := fun first _ heading h _ _ => ⟨h.within.push src first _ heading, h.forest⟩
  closes := by
    intro files r h hdeep
    refine ⟨h.within.close hdeep, ?_⟩
    intro path hpath
    rw [forest_close_of_not_belongsTo h.within hdeep hpath]
    exact h.forest path hpath
  load := by
    intro files r t h _
    refine ⟨h.within.loaded hload src t, ?_⟩
    intro path hpath
    rw [forest_loaded, hevicts src.libraryKind t.text r.work path, h.forest path hpath,
      List.map_append, isClaimed_append]
    by_cases hlater : isClaimed
        ((journal src.libraryKind t.text r.work).map LibraryFile.path) path = true
    · simp [hlater]
    · simp [hlater]
  skipTo := fun _ h => ⟨⟨h.within.nonempty, h.within.opened, h.within.frame⟩, h.forest⟩
  stop := fun h => ⟨⟨h.within.nonempty, h.within.opened, h.within.frame⟩, h.forest⟩

end Reader

namespace Loading

variable {disk : Disk} {load : Loader} {journal : Journal LibraryFile} {w : Workspace}

/-- Settling a library text adds its definition to its namespace. -/
theorem forest_settle_of_not_belongsTo {label : String} {r : Reader} (h : r.Within disk label w)
    {path : String} (hpath : belongsTo (namespaceOf label) path = false) :
    r.settle.work.forest[path]? = r.work.forest[path]? := by
  unfold Reader.settle
  cases hopened : r.work.opened with
  | nil => rfl
  | cons root around =>
    have hown : belongsTo (namespaceOf label) root.path = true :=
      h.opened root (by rw [hopened]; exact List.mem_cons_self)
    have hne : root.path ≠ path := by
      intro heq
      rw [← heq, hown] at hpath
      exact absurd hpath (by simp)
    exact NameMap.getElem?_insert_of_ne hne _

/-- The reader at the end of a library text. -/
theorem sifted_readerOf (hevicts : load.Evicts journal) (hload : load.Frames disk)
    (kind : LibraryKind) (label text : String) (w : Workspace) :
    (readerOf load kind label text w).Sifted disk label w
      (filesOfText load journal kind label text w) := by
  apply (Reader.noting_sifted hevicts hload _ w).ofText
  refine ⟨⟨Nat.succ_pos _, ?_, ?_⟩, ?_⟩
  · exact List.forall_mem_singleton.2 (belongsTo_self _)
  · exact (Frame.refl disk _ w).congr rfl rfl rfl
  · exact fun _ _ => rfl

/-- Compiling a library text takes out what is in its namespace and in those of the files that it
parses. -/
theorem evicts_compileText (hevicts : load.Evicts journal) (hload : load.Frames disk)
    (kind : LibraryKind) (label text : String) (w : Workspace) :
    Evicts (label :: (filesOfText load journal kind label text w).map LibraryFile.path) w.forest
      (compileText load kind label text w).1.forest := by
  have hsifted := sifted_readerOf hevicts hload kind label text w
  rw [compileText_eq]
  revert hsifted
  generalize readerOf load kind label text w = r
  intro hsifted path
  obtain ⟨-, -, hforest, -⟩ := updateLibrary_recordAll_frame kind (released label w r)
    (resolutionOf kind label w r).2 (·.promote (resolutionOf kind label w r).1)
  have hget : (released label w r).forest[path]? =
      if belongsTo (namespaceOf label) path then none else r.settle.work.forest[path]? :=
    getElem?_remaining _ _ path
  rw [hforest, hget, isClaimed_cons]
  by_cases hown : belongsTo (namespaceOf label) path = true
  · simp [hown]
  · rw [if_neg hown, forest_settle_of_not_belongsTo hsifted.within (Bool.eq_false_iff.2 hown),
      hsifted.forest path (Bool.eq_false_iff.2 hown), Bool.eq_false_iff.2 hown, Bool.false_or]

/-- Compiling a library file takes out what is in the namespaces of the files that are parsed. -/
theorem evicts_compileFile (hevicts : load.Evicts journal) (hload : load.Frames disk)
    (kind : LibraryKind) (path : String) (w : Workspace) :
    Evicts ((filesOfFile load journal disk kind path w).map LibraryFile.path) w.forest
      (compileFile load disk kind path w).1.forest := by
  unfold filesOfFile compileFile
  cases disk.find? path with
  | none => exact .refl _
  | some found =>
    obtain ⟨canonical, object⟩ := found
    dsimp only
    by_cases hnew : w.compiled.contains canonical = true
    · rw [if_pos hnew, if_pos hnew]
      exact .refl _
    · rw [if_neg hnew, if_neg hnew]
      cases Disk.textOf object with
      | error message => exact .refl _
      | ok text =>
        have hinner := evicts_compileText hevicts hload kind path text
          { w with compiled := w.compiled.insert canonical }
        obtain ⟨-, -, hforest, -⟩ := updateLibrary_frame kind (compileText load kind path text
          { w with compiled := w.compiled.insert canonical }).1 (·.noteFile canonical)
        dsimp only
        rw [hforest]
        exact hinner

/-- Loaders of any nesting take out of the forest what is in the namespaces of the files that they
parse. -/
theorem evicts_loader (disk : Disk) (n : Nat) :
    (loader disk n).Evicts (Loading.journal disk n) := by
  induction n with
  | zero => exact fun _ _ w => .refl w.forest
  | succ n ih =>
    intro kind name w
    unfold loader compileNamed Loading.journal filesOfNamed
    by_cases hstandard : isStandard name = true
    · rw [if_pos hstandard, if_pos hstandard]
      exact .refl _
    · rw [if_neg hstandard, if_neg hstandard]
      cases (w.settings.libraryCandidates name).find? disk.isFile with
      | none => exact .refl _
      | some path => exact evicts_compileFile ih (frames_loader disk n) kind path w

end Loading

/-! ## Loads in progress -/

/-- The file that is parsed for a load, if there is one: the path that leads to it, its canonical
path and its text. -/
def Reader.Load.entered? (l : Reader.Load) (disk : Disk) : Option (String × String × String) :=
  if isStandard l.name then none
  else
    ((l.work.settings.libraryCandidates l.name).find? disk.isFile).bind fun path =>
      (disk.find? path).bind fun (canonical, object) =>
        if l.work.compiled.contains canonical then none
        else (Disk.textOf object).toOption.map fun text => (path, canonical, text)

/-- A library is asked for while a netlist or library texts are read; the labels are those of the
library texts, innermost first. -/
inductive InProgress (disk : Disk) : List String → Reader.Load → Prop
  | netlist (w : Workspace) (label text : String) {l : Reader.Load}
      (hl : l ∈ Reader.loadsOfText ⟨label, .netlist⟩ disk.loader "" text w.reset) :
      InProgress disk [] l
  /-- A library text is compiled between the compilations of netlists. -/
  | library {w : Workspace} (hw : w.forest.Plain) (kind : LibraryKind) (label text : String)
      {l : Reader.Load}
      (hl : l ∈ Reader.loadsOfText ⟨label, .library kind⟩ disk.loader (namespaceOf label) text
        { w with opened := [] }) :
      InProgress disk [label] l
  | nested {labels : List String} {l l' : Reader.Load} (h : InProgress disk labels l)
      {path canonical text : String} (henters : l.entered? disk = some (path, canonical, text))
      (hl : l' ∈ Reader.loadsOfText ⟨path, .library l.kind⟩ disk.loader (namespaceOf path) text
        { l.work with compiled := l.work.compiled.insert canonical, opened := [] }) :
      InProgress disk (path :: labels) l'

/-- The definitions of a forest are those of a netlist, or in the namespace of one of the labels. -/
def Forest.Held (forest : Forest) (labels : List String) : Prop :=
  ∀ path ∈ forest, ':' ∉ path.toList ∨ isClaimed labels path = true

/-- A library text that is being read adds definitions in its own namespace. -/
theorem held_of_mem_loadsOfText {disk : Disk} {load : Loader} (hload : load.Frames disk)
    {kind : LibraryKind} {label text : String} {w : Workspace} {labels : List String}
    (hw : w.forest.Held labels) {l : Reader.Load}
    (hl : l ∈ Reader.loadsOfText ⟨label, .library kind⟩ load (namespaceOf label) text
      { w with opened := [] }) : l.work.forest.Held (label :: labels) := by
  have hinitial : (Reader.initial ⟨label, .library kind⟩ (namespaceOf label) text
      { w with opened := [] }).Within disk label w := by
    refine ⟨Nat.succ_pos _, ?_, ?_⟩
    · exact List.forall_mem_singleton.2 (belongsTo_self _)
    · exact (Frame.refl disk _ w).congr rfl rfl rfl
  obtain ⟨r, hr, hwork⟩ := (Reader.keeps_within hload _ w).of_mem_loadsOfText hinitial hl
  rw [← hwork]
  intro path hpath
  rw [isClaimed_cons]
  by_cases hown : belongsTo (namespaceOf label) path = true
  · exact .inr (by rw [hown, Bool.true_or])
  · rw [Std.ExtTreeMap.mem_iff_isSome_getElem?] at hpath
    obtain ⟨d, hd⟩ := Option.isSome_iff_exists.1 hpath
    have hold := hr.frame.forest path d hown hd
    have hmem : path ∈ w.forest :=
      Std.ExtTreeMap.mem_iff_isSome_getElem?.2 (by rw [hold]; rfl)
    rw [Bool.eq_false_iff.2 hown, Bool.false_or]
    exact hw path hmem

/-- While texts are read, the definitions are those of the netlist or in their namespaces. -/
theorem InProgress.held {disk : Disk} {labels : List String} {l : Reader.Load}
    (h : InProgress disk labels l) : l.work.forest.Held labels := by
  have hload : disk.loader.Frames disk := frames_loader disk _
  induction h with
  | netlist w label text hl =>
    have hinitial := Reader.initial_ofNetlist (w := w.reset) rfl rfl ⟨label, .netlist⟩ text
    obtain ⟨r, hr, hwork⟩ := (Reader.keeps_ofNetlist hload _).of_mem_loadsOfText hinitial hl
    rw [← hwork]
    exact fun path hpath => .inl (hr.plain path hpath)
  | library hw kind label text hl =>
    exact held_of_mem_loadsOfText hload (fun path hpath => .inl (hw path hpath)) hl
  | @nested labels l l' _ path canonical text _ hl ih =>
    have hnoted : Forest.Held { l.work with
        compiled := l.work.compiled.insert canonical : Workspace }.forest labels := ih
    exact held_of_mem_loadsOfText hload hnoted hl

namespace Workspace

variable (disk : Disk)

/-- The loader of a disk takes out what is in the namespaces of the files that it parses. -/
theorem evicts_diskLoader : disk.loader.Evicts disk.journal := Loading.evicts_loader disk _

/-- Including a library takes out what is in the namespaces of the files that are parsed. -/
theorem evicts_includeLibrary (w : Workspace) (kind : LibraryKind) (name : String) :
    Loading.Evicts ((disk.journal kind name w).map LibraryFile.path) w.forest
      (w.includeLibrary disk kind name).1.forest := evicts_diskLoader disk kind name w

/-- A library text that is compiled at the outside takes out what is in its namespace and in those
of the files parsed. -/
theorem evicts_compileLibraryText (w : Workspace) (kind : LibraryKind) (label text : String) :
    Loading.Evicts (label :: (w.filesOfLibraryText disk kind label text).map LibraryFile.path)
      w.forest (w.compileLibraryText disk kind label text).1.forest := by
  unfold compileLibraryText filesOfLibraryText
  exact evicts_compileText (evicts_diskLoader disk) (frames_loader disk) kind label text w

/-- While texts with the labels `reading` are read, others with the labels `parsed` have been
compiled: nothing that is open has changed, and the forest has lost what is in the namespaces of
`parsed`.  So it is the same exactly if no definition in it is in such a namespace, in particular if
no text that has been compiled has the namespace of one that is being read. -/
structure Sheds (w w' : Workspace) (parsed reading : List String) : Prop where
  opened : w'.opened = w.opened
  forest : Loading.Evicts parsed w.forest w'.forest
  same_iff : w'.forest = w.forest ↔ ∀ path ∈ w.forest, isClaimed parsed path = false
  same_of_apart : (∀ label ∈ parsed, ∀ other ∈ reading, namespaceOf label ≠ namespaceOf other) →
    w'.forest = w.forest

/-- Where definitions are taken out by namespaces, and those at hand lie in the namespaces being
read, exactly the clashing ones are lost. -/
theorem sheds_of_evicts {w w' : Workspace} {parsed reading : List String}
    (hheld : w.forest.Held reading) (hopened : w'.opened = w.opened)
    (hevicts : Loading.Evicts parsed w.forest w'.forest) : w.Sheds w' parsed reading := by
  refine ⟨hopened, hevicts, hevicts.eq_iff, ?_⟩
  intro hapart
  apply hevicts.eq_iff.2
  intro path hpath
  rw [← Bool.not_eq_true]
  intro hclaimed
  obtain ⟨label, hlabel, hbelongs⟩ := List.any_eq_true.1 hclaimed
  rcases hheld path hpath with hplain | hheld
  · exact hplain (colon_mem_of_belongsTo hbelongs)
  · obtain ⟨other, hother, hbelongs'⟩ := List.any_eq_true.1 hheld
    exact hapart label hlabel other hother (namespaceOf_eq_of_belongsTo hbelongs hbelongs')

/-- Compiling a library while a netlist or other libraries are read changes nothing that is open,
and takes out of the forest what is in the namespaces of the texts compiled meanwhile. -/
theorem sheds_of_inProgress {reading : List String} {l : Reader.Load}
    (h : InProgress disk reading l) :
    (∀ (kind : LibraryKind) (name : String),
      l.work.Sheds (l.work.includeLibrary disk kind name).1
        ((disk.journal kind name l.work).map LibraryFile.path) reading) ∧
    ∀ (kind : LibraryKind) (label text : String),
      l.work.Sheds (l.work.compileLibraryText disk kind label text).1
        (label :: (l.work.filesOfLibraryText disk kind label text).map LibraryFile.path)
        reading := by
  constructor
  · intro kind name
    apply sheds_of_evicts h.held
    · exact (frames_loader disk).opened kind name l.work
    · exact l.work.evicts_includeLibrary disk kind name
  · intro kind label text
    apply sheds_of_evicts h.held
    · unfold compileLibraryText
      exact (frame_compileText (frames_loader disk) kind label text l.work).2.2
    · exact l.work.evicts_compileLibraryText disk kind label text

/-! ## Labels with the same namespace -/

/-- A library in a directory, and one whose name is the path of the first one with another
separator.  The first one defines a sub-circuit, loads the second one and defines the sub-circuit
again. -/
def clashing : Disk :=
  (((FileTree.rooted []).write "a/b.lib"
    ("\"ab\"\n.subckt P a b\nR1 a b 1\n.ends\n.lib a_b.lib\n" ++
      ".subckt P a b\nR1 a b 2\n.ends\n").toUTF8).write "a_b.lib" "\"a_b\"\n".toUTF8).disk

/-- What the first library asks for when a netlist loads it, with the label of the library. -/
def clashingLoad? : Option (String × Reader.Load) :=
  (Reader.loadsOfText ⟨"main.cir", .netlist⟩ clashing.loader ""
      "t\n.lib a/b.lib\nR1 1 0 1\n.end\n" standard.reset).head?.bind fun l =>
    (l.entered? clashing).bind fun (path, canonical, text) =>
      (Reader.loadsOfText ⟨path, .library l.kind⟩ clashing.loader (namespaceOf path) text
        { l.work with compiled := l.work.compiled.insert canonical, opened := [] }).head?.map
          fun l' => (path, l')

/-- What the first library asks for is asked for while the first library is read. -/
theorem inProgress_of_clashingLoad? {label : String} {l : Reader.Load}
    (h : clashingLoad? = some (label, l)) : InProgress clashing [label] l := by
  obtain ⟨outer, houter, hinner⟩ := Option.bind_eq_some_iff.1 h
  obtain ⟨⟨path, canonical, text⟩, henters, hload⟩ := Option.bind_eq_some_iff.1 hinner
  obtain ⟨l', hl', heq⟩ := Option.map_eq_some_iff.1 hload
  obtain ⟨rfl, rfl⟩ := Prod.mk.inj heq
  have hnetlist : InProgress clashing [] outer :=
    .netlist standard "main.cir" _ (List.mem_of_mem_head? houter)
  exact hnetlist.nested henters (List.mem_of_mem_head? hl')

/-- The sub-circuit is in the forest before the second library is loaded, and not afterwards. -/
theorem clashingLoad?_spec : (clashingLoad?.map fun (label, l) =>
    (label, l.name, l.work.forest.contains "lib:._a_b.lib/P",
      (l.work.includeLibrary clashing l.kind l.name).1.forest.contains "lib:._a_b.lib/P")) =
    some ("./a/b.lib", "a_b.lib", true, false) := by decide +kernel

/-- The second library takes the definition of the first one out of the forest: their labels differ
in a separator only. -/
theorem exists_inProgress_clashing : ∃ l : Reader.Load, InProgress clashing ["./a/b.lib"] l ∧
    l.name = "a_b.lib" ∧ l.work.forest.contains "lib:._a_b.lib/P" = true ∧
      (l.work.includeLibrary clashing l.kind l.name).1.forest.contains "lib:._a_b.lib/P" =
        false := by
  obtain ⟨⟨label, l⟩, hl, heq⟩ := Option.map_eq_some_iff.1 clashingLoad?_spec
  simp only [Prod.mk.injEq] at heq
  obtain ⟨rfl, hname, hbefore, hafter⟩ := heq
  exact ⟨l, inProgress_of_clashingLoad? hl, hname, hbefore, hafter⟩

/-- Something in the forest is in the namespace of the second library. -/
theorem sheds_of_inProgress_clashing :
    ∃ l : Reader.Load, InProgress clashing ["./a/b.lib"] l ∧
      l.work.Sheds (l.work.includeLibrary clashing l.kind l.name).1
        ((clashing.journal l.kind l.name l.work).map LibraryFile.path) ["./a/b.lib"] ∧
      ¬∀ path ∈ l.work.forest,
        isClaimed ((clashing.journal l.kind l.name l.work).map LibraryFile.path) path = false := by
  obtain ⟨l, hprogress, -, hbefore, hafter⟩ := exists_inProgress_clashing
  have hsheds := (sheds_of_inProgress clashing hprogress).1 l.kind l.name
  refine ⟨l, hprogress, hsheds, ?_⟩
  intro hfree
  rw [hsheds.same_iff.2 hfree, hbefore] at hafter
  exact absurd hafter (by simp)

/-- Loading the second library disturbs the first one. -/
theorem not_undisturbed_clashing :
    ∃ l : Reader.Load, InProgress clashing ["./a/b.lib"] l ∧ l.name = "a_b.lib" ∧
      (l.work.includeLibrary clashing l.kind l.name).1.forest ≠ l.work.forest := by
  obtain ⟨l, hprogress, hname, hbefore, hafter⟩ := exists_inProgress_clashing
  refine ⟨l, hprogress, hname, ?_⟩
  intro heq
  rw [heq, hbefore] at hafter
  exact absurd hafter (by simp)

end Workspace

end FlatNet
