import FlatNet.Proofs.Library.Files
import FlatNet.Proofs.Reading.Source

/-!
# Compiling libraries keeps workspaces regular

The definitions of a library text are read, taken out of the forest, resolved, and added to the
library if no error has been counted in them; so a library only has sound sub-circuits.  A loader is
defined by recursion on the nesting of libraries, and `keepsRegular_loader` is an induction on it.
-/

set_option autoImplicit false

namespace FlatNet

namespace NameMap

variable {α : Type}

/-- An entry of two maps put together is an entry of one of them. -/
theorem getElem?_keepFirst {old new : NameMap α} {name : String} {value : α}
    (h : (keepFirst old new)[name]? = some value) :
    old[name]? = some value ∨ new[name]? = some value := by
  rcases getElem?_foldl_insertIfNew h with h | h
  · exact .inl h
  · exact .inr (Std.ExtTreeMap.mem_toList_iff_getElem?_eq_some.1 h)

end NameMap

namespace Library

/-- In a definition that may be added no error has been counted. -/
theorem errors_of_admissible {defs : Forest} {path : String} {d : Definition}
    (h : (admissible defs)[path]? = some d) : defs[path]? = some d ∧ d.errors = 0 := by
  unfold admissible at h
  rw [Std.ExtTreeMap.getElem?_filter'] at h
  obtain ⟨hd, hkept⟩ := Option.filter_eq_some_iff.1 h
  refine ⟨hd, ?_⟩
  have hall : (isExcluded defs path) = false := by simpa using hkept
  have hself := List.any_eq_false.1 hall path List.mem_cons_self
  have herrors : hasErrors defs path = false := by simpa using hself
  rw [hasErrors, hd] at herrors
  simpa using herrors

/-- A library stays regular when the definitions of a text are added. -/
theorem Regular.promote {lib : Library} (h : lib.Regular) {defs : Forest}
    (hdefs : Forest.Regular defs) : (lib.promote defs).Regular := by
  intro path d hd
  have hcircuits : (lib.promote defs).circuits =
      NameMap.keepFirst lib.circuits ((admissible defs).erase "") := by
    unfold Library.promote
    dsimp only
    split <;> rfl
  rw [hcircuits] at hd
  rcases NameMap.getElem?_keepFirst hd with hd | hd
  · exact h path d hd
  · obtain ⟨hget, herrors⟩ := errors_of_admissible (NameMap.getElem?_of_erase hd)
    exact ⟨hdefs path d hget, herrors⟩

end Library

namespace Loading

/-- A forest stays regular when regular definitions are put into it. -/
theorem regular_foldl_insert {entries : List (String × Definition)} {space : String}
    (hentries : ∀ entry ∈ entries, entry.2.Regular) {defs : Forest}
    (hdefs : Forest.Regular defs) :
    Forest.Regular (entries.foldl
      (fun defs entry =>
        let path := Scope.relativeTo space entry.1
        defs.insert path { entry.2 with path := path }) defs) := by
  induction entries generalizing defs with
  | nil => exact hdefs
  | cons entry rest ih =>
    obtain ⟨hentry, hrest⟩ := List.forall_mem_cons.1 hentries
    refine ih hrest (hdefs.insert ?_ _)
    exact hentry.congr rfl fun hzero => hzero

/-- The definitions of a text are regular if all that have been read are. -/
theorem regular_extracted {forest : Forest} (h : Forest.Regular forest) (space : String) :
    Forest.Regular (extracted forest space) := by
  refine regular_foldl_insert (fun entry hentry => ?_) Forest.regular_empty
  have hmem := List.mem_of_mem_filter hentry
  exact h entry.1 entry.2 (Std.ExtTreeMap.mem_toList_iff_getElem?_eq_some.1 hmem)

/-- Compiling a library text keeps the workspace regular: only sound sub-circuits are added. -/
theorem regular_compileText {load : Loader} (hload : load.KeepsRegular) {w : Workspace}
    (h : w.Regular) (kind : LibraryKind) (label text : String) :
    (compileText load kind label text w).1.Regular := by
  have hbare : Workspace.Regular { w with opened := [] } :=
    ⟨h.forest, by simp, h.user, h.builtin⟩
  have hread := regular_readSource hload hbare ⟨label, .library kind⟩ (namespaceOf label) text
  unfold compileText
  dsimp only
  refine Workspace.Regular.updateLibrary (Workspace.Regular.recordAll ?_ _) kind ?_
  · exact ⟨hread.forest.filter _, h.opened, hread.user, hread.builtin⟩
  · intro lib hlib
    exact hlib.promote ((regular_extracted hread.forest _).resolve _)

/-- Compiling a library file keeps the workspace regular. -/
theorem regular_compileFile {load : Loader} (hload : load.KeepsRegular) {w : Workspace}
    (h : w.Regular) (disk : Disk) (kind : LibraryKind) (path : String) :
    (compileFile load disk kind path w).1.Regular := by
  have hnoted : ∀ canonical, Workspace.Regular { w with compiled := w.compiled.insert canonical } :=
    fun _ => ⟨h.forest, h.opened, h.user, h.builtin⟩
  have hcompiles := compiles_compileFile load disk kind path w
  generalize compileFile load disk kind path w = result at hcompiles ⊢
  cases hcompiles with
  | missing _ | known _ _ => exact h
  | unreadable _ _ _ => exact hnoted _
  | @compiled canonical text _ _ _ _ =>
    have hcompiled := regular_compileText hload (hnoted canonical) kind path text
    have hnote : ∀ lib : Library, lib.Regular → (lib.noteFile canonical).Regular :=
      fun _ hlib => hlib
    have hfinal := hcompiled.updateLibrary kind hnote
    exact hfinal

/-- Looking a library up by its name and compiling it keeps a workspace regular. -/
theorem keepsRegular_compileNamed {load : Loader} (hload : load.KeepsRegular) (disk : Disk) :
    Loader.KeepsRegular (compileNamed load disk) := by
  intro kind name w h
  have hloads := loads_compileNamed load disk kind name w
  generalize compileNamed load disk kind name w = result at hloads ⊢
  cases hloads with
  | standard _ | missing _ _ => exact h
  | found _ _ => exact regular_compileFile hload h disk kind _

/-- Loaders of any nesting keep workspaces regular. -/
theorem keepsRegular_loader (disk : Disk) (n : Nat) : Loader.KeepsRegular (loader disk n) := by
  induction n with
  | zero => exact fun _ _ _ h => h
  | succ n ih => exact keepsRegular_compileNamed ih disk

end Loading

namespace Workspace

variable {w : Workspace}

/-- Reading a text keeps the workspace regular. -/
theorem Regular.readSource (h : w.Regular) (disk : Disk) (src : Source) (path text : String) :
    (w.readSource disk src path text).1.Regular :=
  regular_readSource (Loading.keepsRegular_loader disk _) h src path text

/-- The workspace in which a netlist has been read, after the last one has been forgotten. -/
def readNetlist (w : Workspace) (disk : Disk) (label text : String) : Workspace :=
  (w.reset.readSource disk ⟨label, .netlist⟩ "" text).1

/-- Reading a netlist keeps the workspace regular. -/
theorem Regular.readNetlist (h : w.Regular) (disk : Disk) (label text : String) :
    (w.readNetlist disk label text).Regular := h.reset.readSource disk _ _ text

/-- A library text that is compiled at the outside keeps the workspace regular. -/
theorem Regular.compileLibraryText (h : w.Regular) (disk : Disk) (kind : LibraryKind)
    (label text : String) : (w.compileLibraryText disk kind label text).1.Regular :=
  Loading.regular_compileText (Loading.keepsRegular_loader disk _) h kind label text

/-- A library file that is compiled at the outside keeps the workspace regular. -/
theorem Regular.compileLibrary (h : w.Regular) (disk : Disk) (kind : LibraryKind)
    (path : String) : (w.compileLibrary disk kind path).1.Regular :=
  Loading.regular_compileFile (Loading.keepsRegular_loader disk _) h disk kind path

/-- A library that is included by its name keeps the workspace regular. -/
theorem Regular.includeLibrary (h : w.Regular) (disk : Disk) (kind : LibraryKind)
    (name : String) : (w.includeLibrary disk kind name).1.Regular :=
  Loading.keepsRegular_loader disk _ kind name w h

/-- Compiling the built-in libraries anew makes a workspace regular. -/
theorem regular_rebuild (w : Workspace) (disk : Disk) : (w.rebuild disk).Regular := by
  unfold rebuild
  dsimp only
  have hbare : Workspace.Regular
      { w.reset with user := Library.empty, builtin := Library.empty, compiled := ∅ } :=
    ⟨Forest.regular_empty, by simp [Workspace.reset], Library.regular_empty,
      Library.regular_empty⟩
  have hstandard := hbare.compileLibraryText disk .builtin StandardLibrary.fileName
    StandardLibrary.text
  -- the configured libraries come after the standard one, each in what the last one has left
  generalize w.settings.builtinLibraries = paths
  revert hstandard
  generalize (compileLibraryText _ disk .builtin _ _).1 = v
  intro hv
  induction paths generalizing v with
  | nil => exact hv
  | cons path rest ih =>
    refine ih _ ?_
    have hcompiled := hv.compileLibrary disk .builtin path
    unfold compileConfigured
    split
    · rename_i hpair
      rwa [hpair] at hcompiled
    · rename_i hpair
      rw [hpair] at hcompiled
      exact hcompiled.recordAll [_]

/-- Resolution keeps the workspace regular. -/
theorem Regular.resolve (h : w.Regular) : w.resolve.1.Regular :=
  ⟨h.forest.resolve _, h.opened, h.user, h.builtin⟩

end Workspace

end FlatNet
