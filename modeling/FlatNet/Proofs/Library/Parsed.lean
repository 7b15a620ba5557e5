import FlatNet.Disk.FileTree
import FlatNet.Proofs.Library.Nesting
import FlatNet.Proofs.Library.Standard

/-!
# Parsed library files

The journal of a loader notes every library file that is parsed, in the order in which this begins.
A parsed file is noted in the library that it is compiled into when it has been read, and as
compiled before: `Filed` relates the stocks before and after some files have been parsed, and by
induction on the nesting of libraries it holds of every loader.
-/

set_option autoImplicit false

namespace FlatNet

/-- A library file that is parsed: the path that has led to it, which is the label of its text, and
its canonical path. -/
structure LibraryFile where
  path : String
  canonical : String

namespace Loading

/-- The files that are parsed while a library text is compiled. -/
def filesOfText (load : Loader) (journal : Journal LibraryFile) (kind : LibraryKind)
    (label text : String) (w : Workspace) : List LibraryFile :=
  Reader.notesOfText ⟨label, .library kind⟩ load journal (namespaceOf label) text
    { w with opened := [] }

/-- The files that are parsed when the library file at a path is compiled. -/
def filesOfFile (load : Loader) (journal : Journal LibraryFile) (disk : Disk) (kind : LibraryKind)
    (path : String) (w : Workspace) : List LibraryFile :=
  match disk.find? path with
  | none => []
  | some (canonical, object) =>
    if w.compiled.contains canonical then []
    else
      match Disk.textOf object with
      | .error _ => []
      | .ok text =>
        ⟨path, canonical⟩ ::
          filesOfText load journal kind path text
            { w with compiled := w.compiled.insert canonical }

/-- The files that are parsed when a library is loaded by its name. -/
def filesOfNamed (load : Loader) (journal : Journal LibraryFile) (disk : Disk) :
    Journal LibraryFile := fun kind name w =>
  if isStandard name then []
  else
    match (w.settings.libraryCandidates name).find? disk.isFile with
    | none => []
    | some path => filesOfFile load journal disk kind path w

/-- The files that are parsed by the loader for libraries nested less deeply than the bound. -/
def journal (disk : Disk) : Nat → Journal LibraryFile
  | 0 => fun _ _ _ => []
  | n + 1 => filesOfNamed (loader disk n) (journal disk n) disk

end Loading

/-- The files that are parsed by the loader of a disk. -/
def Disk.journal (disk : Disk) : Journal LibraryFile := Loading.journal disk (disk.objects.size + 1)

/-- The stocks before and after some files have been parsed: each of them has been noted in one of
the libraries, none had been compiled before, and no file twice. -/
structure Stock.Filed (s : Stock) (files : List LibraryFile) (s' : Stock) : Prop where
  compiled : ∀ file ∈ s.compiled, file ∈ s'.compiled
  noted : ∃ user builtin, s'.user.files = s.user.files ++ user ∧
    s'.builtin.files = s.builtin.files ++ builtin ∧
      (user ++ builtin).Perm (files.map LibraryFile.canonical)
  nodup : (files.map LibraryFile.canonical).Nodup
  fresh : ∀ file ∈ files.map LibraryFile.canonical, file ∉ s.compiled ∧ file ∈ s'.compiled

namespace Stock

variable {s s' s'' : Stock} {files files' : List LibraryFile}

/-- Where no file is noted, none has been parsed. -/
theorem Filed.of_files_eq (huser : s'.user.files = s.user.files)
    (hbuiltin : s'.builtin.files = s.builtin.files)
    (hcompiled : ∀ file ∈ s.compiled, file ∈ s'.compiled) : s.Filed [] s' where
  compiled := hcompiled
  noted := ⟨[], [], by simp [huser], by simp [hbuiltin], by simp⟩
  nodup := List.nodup_nil
  fresh := by simp

/-- Doing nothing parses no file. -/
theorem Filed.refl (s : Stock) : s.Filed [] s := of_files_eq rfl rfl fun _ h => h

/-- Of four lists one after another the middle ones may change places. -/
theorem perm_append_append (as bs cs ds : List String) :
    ((as ++ bs) ++ (cs ++ ds)).Perm ((as ++ cs) ++ (bs ++ ds)) := by
  simp only [List.append_assoc]
  apply List.Perm.append_left
  rw [← List.append_assoc, ← List.append_assoc]
  exact List.perm_append_comm.append_right ds

/-- Files that are parsed later are other ones, since the earlier ones have been compiled. -/
theorem Filed.trans (h : s.Filed files s') (h' : s'.Filed files' s'') :
    s.Filed (files ++ files') s'' where
  compiled := fun file hfile => h'.compiled file (h.compiled file hfile)
  noted := by
    obtain ⟨user, builtin, huser, hbuiltin, hperm⟩ := h.noted
    obtain ⟨user', builtin', huser', hbuiltin', hperm'⟩ := h'.noted
    refine ⟨user ++ user', builtin ++ builtin', ?_, ?_, ?_⟩
    · rw [huser', huser, List.append_assoc]
    · rw [hbuiltin', hbuiltin, List.append_assoc]
    · rw [List.map_append]
      exact (perm_append_append _ _ _ _).trans (hperm.append hperm')
  nodup := by
    rw [List.map_append, List.nodup_append]
    refine ⟨h.nodup, h'.nodup, ?_⟩
    rintro file hfile _ hfile' rfl
    exact (h'.fresh file hfile').1 (h.fresh file hfile).2
  fresh := by
    intro file hfile
    rw [List.map_append, List.mem_append] at hfile
    rcases hfile with hfile | hfile
    · exact ⟨(h.fresh file hfile).1, h'.compiled file (h.fresh file hfile).2⟩
    · refine ⟨?_, (h'.fresh file hfile).2⟩
      intro hmem
      exact (h'.fresh file hfile).1 (h.compiled file hmem)

/-- A file that is noted as compiled before the files inside it are parsed, and in a library
afterwards, is parsed itself. -/
theorem Filed.note {path canonical : String} (hnew : canonical ∉ s.compiled)
    (h : Filed { s with compiled := s.compiled.insert canonical } files s')
    (hnoted : ∃ user builtin, s''.user.files = s'.user.files ++ user ∧
      s''.builtin.files = s'.builtin.files ++ builtin ∧ (user ++ builtin).Perm [canonical])
    (hcompiled : s''.compiled = s'.compiled) : s.Filed (⟨path, canonical⟩ :: files) s'' where
  compiled := by
    intro file hfile
    rw [hcompiled]
    exact h.compiled file (Std.ExtTreeSet.mem_insert.2 (.inr hfile))
  noted := by
    obtain ⟨user, builtin, huser, hbuiltin, hperm⟩ := h.noted
    obtain ⟨user', builtin', huser', hbuiltin', hperm'⟩ := hnoted
    refine ⟨user ++ user', builtin ++ builtin', ?_, ?_, ?_⟩
    · rw [huser', huser, List.append_assoc]
    · rw [hbuiltin', hbuiltin, List.append_assoc]
    · have hall := (perm_append_append user user' builtin builtin').trans (hperm.append hperm')
      exact hall.trans (List.perm_append_singleton _ _)
  nodup := by
    rw [List.map_cons, List.nodup_cons]
    refine ⟨?_, h.nodup⟩
    intro hmem
    exact (h.fresh canonical hmem).1 Std.ExtTreeSet.mem_insert_self
  fresh := by
    intro file hfile
    rw [hcompiled]
    rw [List.map_cons, List.mem_cons] at hfile
    rcases hfile with rfl | hfile
    · exact ⟨hnew, h.compiled _ Std.ExtTreeSet.mem_insert_self⟩
    · refine ⟨?_, (h.fresh file hfile).2⟩
      intro hmem
      exact (h.fresh file hfile).1 (Std.ExtTreeSet.mem_insert.2 (.inr hmem))

/-- Only the files of a stock matter. -/
theorem Filed.congr (h : s.Filed files s') (huser : s''.user.files = s'.user.files)
    (hbuiltin : s''.builtin.files = s'.builtin.files) (hcompiled : s''.compiled = s'.compiled) :
    s.Filed files s'' := by
  have hsame : s'.Filed [] s'' := of_files_eq huser hbuiltin (by simp [hcompiled])
  simpa using h.trans hsame

end Stock

/-- The files noted by the journal are those that the loader parses. -/
def Loader.Files (load : Loader) (journal : Journal LibraryFile) : Prop :=
  ∀ kind name (w : Workspace), w.stock.Filed (journal kind name w) (load kind name w).1.stock

namespace Loading

variable {disk : Disk} {load : Loader} {journal : Journal LibraryFile}

/-- The files parsed while a text is read are those that its lines load. -/
theorem filed_ofText (hfiles : load.Files journal) (hload : load.Frames disk) (src : Source)
    (path text : String) (w : Workspace) :
    w.stock.Filed (Reader.notesOfText src load journal path text w)
      (Reader.ofText load src path text w).work.stock := by
  have hnoting : Reader.Noting src load journal fun notes r =>
      0 < r.work.opened.length ∧ w.stock.Filed notes r.work.stock :=
    Reader.noting_stock (P := fun notes s => w.stock.Filed notes s) hload.opened
      fun notes kind name v h => h.trans (hfiles kind name v)
  exact (hnoting.ofText ⟨Nat.succ_pos _, .refl _⟩).2

/-- Releasing a library text keeps the stock of its reader. -/
theorem stock_released (label : String) (w : Workspace) (r : Reader) :
    (released label w r).stock = r.work.stock := Reader.stock_settle r

/-- Adding definitions to a library leaves its files alone. -/
theorem filed_compileText (hfiles : load.Files journal) (hload : load.Frames disk)
    (kind : LibraryKind) (label text : String) (w : Workspace) :
    w.stock.Filed (filesOfText load journal kind label text w)
      (compileText load kind label text w).1.stock := by
  have hread : w.stock.Filed (filesOfText load journal kind label text w)
      (released label w (readerOf load kind label text w)).stock := by
    rw [stock_released]
    exact filed_ofText hfiles hload _ _ _ { w with opened := [] }
  rw [compileText_eq]
  revert hread
  generalize readerOf load kind label text w = r
  intro hread
  cases kind with
  | builtin => exact hread.congr rfl (files_promote _ _) rfl
  | user => exact hread.congr (files_promote _ _) rfl rfl

/-- Compiling a library file notes the files that it parses. -/
theorem filed_compileFile (hfiles : load.Files journal) (hload : load.Frames disk)
    (kind : LibraryKind) (path : String) (w : Workspace) :
    w.stock.Filed (filesOfFile load journal disk kind path w)
      (compileFile load disk kind path w).1.stock := by
  unfold filesOfFile compileFile
  cases disk.find? path with
  | none => exact .refl _
  | some found =>
    obtain ⟨canonical, object⟩ := found
    dsimp only
    by_cases hnew : w.compiled.contains canonical = true
    · rw [if_pos hnew, if_pos hnew]
      exact .refl _
    · rw [if_neg hnew, if_neg hnew]
      have hgrows : ∀ file ∈ w.compiled, file ∈ w.compiled.insert canonical :=
        fun file hfile => Std.ExtTreeSet.mem_insert.2 (.inr hfile)
      cases Disk.textOf object with
      | error message => exact .of_files_eq rfl rfl hgrows
      | ok text =>
        dsimp only
        have hnot : canonical ∉ w.compiled := by rwa [← Std.ExtTreeSet.contains_iff_mem]
        have hinner := filed_compileText hfiles hload kind path text
          { w with compiled := w.compiled.insert canonical }
        revert hinner
        generalize compileText load kind path text _ = result
        intro hinner
        cases kind with
        | builtin => exact hinner.note hnot ⟨[], [canonical], by simp; rfl, rfl, .refl _⟩ rfl
        | user => exact hinner.note hnot ⟨[canonical], [], rfl, by simp; rfl, .refl _⟩ rfl

/-- The journal of a loader notes the files that it parses. -/
theorem files_loader (disk : Disk) (n : Nat) : (loader disk n).Files (Loading.journal disk n) := by
  induction n with
  | zero => exact fun _ _ w => .refl w.stock
  | succ n ih =>
    intro kind name w
    unfold loader compileNamed Loading.journal filesOfNamed
    by_cases hstandard : isStandard name = true
    · rw [if_pos hstandard, if_pos hstandard]
      exact .refl _
    · rw [if_neg hstandard, if_neg hstandard]
      cases (w.settings.libraryCandidates name).find? disk.isFile with
      | none => exact .refl _
      | some path => exact filed_compileFile ih (frames_loader disk n) kind path w

end Loading

namespace Workspace

variable (w : Workspace) (disk : Disk)

/-! ## Operations -/

/-- The library files that are parsed while a netlist is compiled. -/
def filesOfCompile (label text : String) : List LibraryFile :=
  Reader.notesOfText ⟨label, .netlist⟩ disk.loader disk.journal "" text w.reset

/-- The library files that are parsed while a library text is compiled. -/
def filesOfLibraryText (kind : LibraryKind) (label text : String) : List LibraryFile :=
  Loading.filesOfText disk.loader disk.journal kind label text w

/-- The library files that are parsed when the library file at a path is compiled. -/
def filesOfLibrary (kind : LibraryKind) (path : String) : List LibraryFile :=
  Loading.filesOfFile disk.loader disk.journal disk kind path w

/-- The journal of a disk lists the files that its loader parses. -/
theorem files_loader : disk.loader.Files disk.journal := Loading.files_loader disk _

/-- The loader of a disk leaves alone what is open. -/
theorem frames_loader : disk.loader.Frames disk := Loading.frames_loader disk _

/-- A library text that is compiled at the outside notes the files that are parsed. -/
theorem filed_compileLibraryText (kind : LibraryKind) (label text : String) :
    w.stock.Filed (w.filesOfLibraryText disk kind label text)
      (w.compileLibraryText disk kind label text).1.stock :=
  Loading.filed_compileText (files_loader disk) (frames_loader disk) kind label text w

/-- A library file that is compiled at the outside notes the files that are parsed. -/
theorem filed_compileLibrary (kind : LibraryKind) (path : String) :
    w.stock.Filed (w.filesOfLibrary disk kind path) (w.compileLibrary disk kind path).1.stock :=
  Loading.filed_compileFile (files_loader disk) (frames_loader disk) kind path w

/-- A library that is included by its name notes the files that are parsed. -/
theorem filed_includeLibrary (kind : LibraryKind) (name : String) :
    w.stock.Filed (disk.journal kind name w) (w.includeLibrary disk kind name).1.stock :=
  files_loader disk kind name w

/-- Finishing a netlist parses no file and changes no library. -/
theorem stock_finishNetlist : w.finishNetlist.1.stock = w.stock := by
  obtain ⟨hsettings, huser, hbuiltin, hcompiled⟩ := w.finishNetlist_kept
  unfold stock
  rw [hsettings, huser, hbuiltin, hcompiled]

/-- Compiling a netlist notes the library files that are parsed. -/
theorem filed_compile (label text : String) :
    w.stock.Filed (w.filesOfCompile disk label text) (w.compile disk label text).1.stock := by
  have hread := Loading.filed_ofText (files_loader disk) (frames_loader disk) ⟨label, .netlist⟩
    "" text w.reset
  rw [compile_eq, stock_finishNetlist]
  unfold readNetlist Workspace.readSource
  rw [Reader.readSource_eq, Reader.stock_settle]
  exact hread

/-- A workspace without libraries, as it is before they are compiled anew. -/
def cleared : Workspace :=
  { w.reset with user := Library.empty, builtin := Library.empty, compiled := ∅ }

/-- Operations between two times at which all libraries are forgotten, with the library files that
are parsed on the way. -/
inductive Passes : Workspace → List LibraryFile → Workspace → Prop
  | refl (w : Workspace) : Passes w [] w
  | compileLibraryText {w w' : Workspace} {files : List LibraryFile} (h : Passes w files w')
      (disk : Disk) (kind : LibraryKind) (label text : String) :
      Passes w (files ++ w'.filesOfLibraryText disk kind label text)
        (w'.compileLibraryText disk kind label text).1
  | compileLibrary {w w' : Workspace} {files : List LibraryFile} (h : Passes w files w')
      (disk : Disk) (kind : LibraryKind) (path : String) :
      Passes w (files ++ w'.filesOfLibrary disk kind path) (w'.compileLibrary disk kind path).1
  | includeLibrary {w w' : Workspace} {files : List LibraryFile} (h : Passes w files w')
      (disk : Disk) (kind : LibraryKind) (name : String) :
      Passes w (files ++ disk.journal kind name w') (w'.includeLibrary disk kind name).1
  | compile {w w' : Workspace} {files : List LibraryFile} (h : Passes w files w')
      (disk : Disk) (label text : String) :
      Passes w (files ++ w'.filesOfCompile disk label text) (w'.compile disk label text).1
  | reset {w w' : Workspace} {files : List LibraryFile} (h : Passes w files w') :
      Passes w files w'.reset
  | record {w w' : Workspace} {files : List LibraryFile} (h : Passes w files w') (f : Finding) :
      Passes w files (w'.record f)
  | configure {w w' : Workspace} {files : List LibraryFile} (h : Passes w files w')
      (settings : Settings) : Passes w files { w' with settings }

variable {w disk} {w' : Workspace} {files : List LibraryFile}

/-- Operations in a row note the library files that are parsed on the way. -/
theorem Passes.filed (h : w.Passes files w') : w.stock.Filed files w'.stock := by
  induction h with
  | refl => exact .refl _
  | compileLibraryText _ disk kind label text ih =>
    exact ih.trans (filed_compileLibraryText _ disk kind label text)
  | compileLibrary _ disk kind path ih => exact ih.trans (filed_compileLibrary _ disk kind path)
  | includeLibrary _ disk kind name ih => exact ih.trans (filed_includeLibrary _ disk kind name)
  | compile _ disk label text ih => exact ih.trans (filed_compile _ disk label text)
  | reset _ ih => exact ih
  | record _ _ ih => exact ih
  | configure _ _ ih => exact ih.congr rfl rfl rfl

/-- Compiling the built-in libraries anew is a row of operations on a cleared workspace. -/
theorem exists_passes_rebuild (w : Workspace) (disk : Disk) :
    ∃ files, w.cleared.Passes files (w.rebuild disk) := by
  have hconfigured : ∀ (paths : List String) (v : Workspace) (files : List LibraryFile),
      w.cleared.Passes files v →
        ∃ files', w.cleared.Passes files' (paths.foldl (compileConfigured disk) v) := by
    intro paths
    induction paths with
    | nil => exact fun v files h => ⟨files, h⟩
    | cons path rest ih =>
      intro v files h
      have hcompiled := h.compileLibrary disk .builtin path
      have hstep : w.cleared.Passes (files ++ v.filesOfLibrary disk .builtin path)
          (compileConfigured disk v path) := by
        unfold compileConfigured
        revert hcompiled
        generalize v.compileLibrary disk .builtin path = result
        obtain ⟨work, problem?⟩ := result
        intro hcompiled
        cases problem? with
        | none => exact hcompiled
        | some problem => exact hcompiled.record _
      exact ih _ _ hstep
  have hstandard := (Passes.refl w.cleared).compileLibraryText disk .builtin
    StandardLibrary.fileName StandardLibrary.text
  exact hconfigured w.settings.builtinLibraries _ _ hstandard

/-! ## Reachable workspaces -/

/-- No file is noted twice in the libraries, and all of them have been compiled. -/
structure Orderly (w : Workspace) : Prop where
  nodup : (w.user.files ++ w.builtin.files).Nodup
  compiled : ∀ file ∈ w.user.files ++ w.builtin.files, file ∈ w.compiled

/-- Operations in a row keep the noted files in order. -/
theorem Passes.orderly (h : w.Passes files w') (hw : w.Orderly) : w'.Orderly := by
  obtain ⟨hcompiled, ⟨user, builtin, huser, hbuiltin, hperm⟩, hnodup, hfresh⟩ := h.filed
  have hall : (w'.user.files ++ w'.builtin.files).Perm
      ((w.user.files ++ w.builtin.files) ++ files.map LibraryFile.canonical) := by
    rw [show w'.user.files = w.user.files ++ user from huser,
      show w'.builtin.files = w.builtin.files ++ builtin from hbuiltin]
    exact (Stock.perm_append_append _ _ _ _).trans (hperm.append_left _)
  refine ⟨hall.nodup_iff.2 ?_, ?_⟩
  · rw [List.nodup_append]
    refine ⟨hw.nodup, hnodup, ?_⟩
    rintro file hfile _ hparsed rfl
    exact (hfresh file hparsed).1 (hw.compiled file hfile)
  · intro file hfile
    rcases List.mem_append.1 (hall.mem_iff.1 hfile) with hfile | hfile
    · exact hcompiled file (hw.compiled file hfile)
    · exact (hfresh file hfile).2

/-- Where all libraries have been forgotten no file is noted. -/
theorem orderly_cleared (w : Workspace) : w.cleared.Orderly :=
  ⟨List.nodup_nil, fun _ hfile => absurd hfile (List.not_mem_nil)⟩

/-- The noted files are in order when the libraries have been compiled anew. -/
theorem orderly_rebuild (w : Workspace) (disk : Disk) : (w.rebuild disk).Orderly := by
  obtain ⟨files, hpasses⟩ := exists_passes_rebuild w disk
  exact hpasses.orderly w.orderly_cleared

/-- The noted files are in order in every workspace that comes about. -/
theorem Reachable.orderly (h : w.Reachable) : w.Orderly := by
  induction h with
  | new settings disk => exact orderly_rebuild _ disk
  | @withBuiltin settings w _ ih =>
    have hbuiltin : w.builtin.files.Nodup := (List.nodup_append.1 ih.nodup).2.1
    refine ⟨hbuiltin, ?_⟩
    intro file hfile
    exact NameSet.mem_ofList.2 hfile
  | compileLibraryText _ disk kind label text ih =>
    exact ((Passes.refl _).compileLibraryText disk kind label text).orderly ih
  | compileLibrary _ disk kind path ih =>
    exact ((Passes.refl _).compileLibrary disk kind path).orderly ih
  | includeLibrary _ disk kind name ih =>
    exact ((Passes.refl _).includeLibrary disk kind name).orderly ih
  | compile _ disk label text ih => exact ((Passes.refl _).compile disk label text).orderly ih
  | reset _ ih => exact ⟨ih.nodup, ih.compiled⟩
  | rebuild _ disk _ => exact orderly_rebuild _ disk
  | configure _ settings ih => exact ⟨ih.nodup, ih.compiled⟩

/-- Loading ends, and every file is parsed once.  The loader calls itself for the libraries inside
a library; unfolding these calls more often than there are files on the disk leaves none, whatever
`bottom` would do for it, so every text is read to its end.  Between two times at which all
libraries are forgotten no file is parsed twice, and none that had been compiled before, and the
files that the libraries record are added to by exactly those that are parsed; compiling the
built-in libraries anew is such a time with operations behind it.  In workspaces that come about no
file is noted twice in the libraries, and all of them have been compiled. -/
theorem loading_ends_and_parses_once :
    (∀ (disk : Disk) (bottom : Loader) (n : Nat), disk.objects.size < n →
      Loading.unfolded disk bottom n = disk.loader ∧
        ∀ (w : Workspace) (src : Source) (path text : String),
          FlatNet.readSource (Loading.unfolded disk bottom n) src path text w =
            w.readSource disk src path text) ∧
    (∀ (w w' : Workspace) (files : List LibraryFile), w.Passes files w' →
      (files.map LibraryFile.canonical).Nodup ∧
        (∀ file ∈ files.map LibraryFile.canonical, file ∉ w.compiled ∧ file ∈ w'.compiled) ∧
        ∃ user builtin, w'.user.files = w.user.files ++ user ∧
          w'.builtin.files = w.builtin.files ++ builtin ∧
            (user ++ builtin).Perm (files.map LibraryFile.canonical)) ∧
    (∀ (w : Workspace) (disk : Disk), ∃ files, w.cleared.Passes files (w.rebuild disk)) ∧
    ∀ w : Workspace, w.Reachable → (w.user.files ++ w.builtin.files).Nodup ∧
      ∀ file ∈ w.user.files ++ w.builtin.files, file ∈ w.compiled := by
  refine ⟨?_, ?_, exists_passes_rebuild, ?_⟩
  · intro disk bottom n h
    have hloader := Loading.unfolded_eq_loader disk bottom h
    refine ⟨hloader, ?_⟩
    intro w src path text
    rw [hloader]
    rfl
  · intro w w' files h
    exact ⟨h.filed.nodup, h.filed.fresh, h.filed.noted⟩
  · intro w h
    exact ⟨h.orderly.nodup, h.orderly.compiled⟩

/-- A disk with two libraries that refer to each other. -/
def entangled : Disk :=
  (((FileTree.rooted []).write "a.lib"
    "\"a\"\n.lib b.lib\n.subckt A p q\nR1 p q 1\n.ends\n".toUTF8).write
      "b.lib" "\"b\"\n.lib a.lib\n.subckt B p q\nR1 p q 2\n.ends\n".toUTF8).disk

/-- Libraries that refer to each other are parsed once each, and recorded once each, the inner one
first. -/
theorem loading_ends_and_parses_once_entangled :
    (∀ bottom : Loader, Loading.unfolded entangled bottom 4 = entangled.loader) ∧
    (entangled.journal .user "a.lib" standard).map LibraryFile.canonical = ["/a.lib", "/b.lib"] ∧
    ((entangled.journal .user "a.lib" standard).map LibraryFile.canonical).Nodup ∧
    (∃ user builtin, (standard.includeLibrary entangled .user "a.lib").1.user.files =
        standard.user.files ++ user ∧ (user ++ builtin).Perm ["/a.lib", "/b.lib"]) ∧
    (standard.includeLibrary entangled .user "a.lib").1.user.files = ["/b.lib", "/a.lib"] ∧
    standard.Reachable ∧ (standard.user.files ++ standard.builtin.files).Nodup := by
  obtain ⟨hends, honce, -, horderly⟩ := loading_ends_and_parses_once
  have hpasses := (Passes.refl standard).includeLibrary entangled .user "a.lib"
  have hjournal : (entangled.journal .user "a.lib" standard).map LibraryFile.canonical =
      ["/a.lib", "/b.lib"] := by decide +kernel
  obtain ⟨hnodup, -, user, builtin, huser, -, hperm⟩ := honce _ _ _ hpasses
  rw [List.nil_append] at hnodup hperm
  rw [hjournal] at hperm
  refine ⟨fun bottom => (hends entangled bottom 4 (by decide +kernel)).1, hjournal, hnodup,
    ⟨user, builtin, huser, hperm⟩, by decide +kernel, reachable_standard,
    (horderly _ reachable_standard).1⟩

end Workspace

end FlatNet
