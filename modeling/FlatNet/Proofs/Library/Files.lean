import FlatNet.Library.Loading

/-!
# What loading a library can come to

A library that is asked for by its name is a file that has been compiled before, a file that is
compiled now, or a problem.  `Compiles` lists what can come of the file at a path, `Loads` what can
come of a name.  The cases exclude one another, so that each of them says what the function gives:
`Compiles.eq` and `Loads.eq`.
-/

set_option autoImplicit false

namespace FlatNet.Loading

/-- What compiling the library file at a path can come to. -/
inductive Compiles (load : Loader) (disk : Disk) (kind : LibraryKind) (path : String)
    (w : Workspace) : Workspace × Option Problem → Prop
  | missing (hfind : disk.find? path = none) :
      Compiles load disk kind path w (w, some (.libraryNotFound path))
  | known {canonical : String} {object : DiskObject}
      (hfind : disk.find? path = some (canonical, object)) (hknown : canonical ∈ w.compiled) :
      Compiles load disk kind path w (w, none)
  | unreadable {canonical message : String} {object : DiskObject}
      (hfind : disk.find? path = some (canonical, object)) (hnew : canonical ∉ w.compiled)
      (htext : Disk.textOf object = .error message) :
      Compiles load disk kind path w
        ({ w with compiled := w.compiled.insert canonical },
          some (.libraryUnreadable path message))
  | compiled {canonical text : String} {object : DiskObject}
      (hfind : disk.find? path = some (canonical, object)) (hnew : canonical ∉ w.compiled)
      (htext : Disk.textOf object = .ok text) :
      Compiles load disk kind path w
        ((compileText load kind path text
          { w with compiled := w.compiled.insert canonical }).1.updateLibrary kind
            (·.noteFile canonical), none)

/-- What asking for a library by its name can come to. -/
inductive Loads (load : Loader) (disk : Disk) (kind : LibraryKind) (name : String)
    (w : Workspace) : Workspace × Option Problem → Prop
  | standard (hname : isStandard name = true) :
      Loads load disk kind name w (w, some (.builtinLibraryReference name))
  | missing (hname : isStandard name = false)
      (hpath : (w.settings.libraryCandidates name).find? disk.isFile = none) :
      Loads load disk kind name w (w, some (.libraryNotFound name))
  | found {path : String} (hname : isStandard name = false)
      (hpath : (w.settings.libraryCandidates name).find? disk.isFile = some path) :
      Loads load disk kind name w (compileFile load disk kind path w)

variable {load : Loader} {disk : Disk} {kind : LibraryKind} {w : Workspace}

/-- What becomes of a library file is one of these. -/
theorem compiles_compileFile (load : Loader) (disk : Disk) (kind : LibraryKind) (path : String)
    (w : Workspace) : Compiles load disk kind path w (compileFile load disk kind path w) := by
  unfold compileFile
  split
  · rename_i hfind
    exact .missing hfind
  · rename_i canonical object hfind
    split
    · rename_i hknown
      exact .known hfind (Std.ExtTreeSet.contains_iff_mem.1 hknown)
    · rename_i hnew
      rw [Std.ExtTreeSet.contains_iff_mem] at hnew
      dsimp only
      split
      · rename_i htext
        exact .unreadable hfind hnew htext
      · rename_i htext
        exact .compiled hfind hnew htext

/-- What becomes of the name of a library is one of these. -/
theorem loads_compileNamed (load : Loader) (disk : Disk) (kind : LibraryKind) (name : String)
    (w : Workspace) : Loads load disk kind name w (compileNamed load disk kind name w) := by
  unfold compileNamed
  split
  · rename_i hname
    exact .standard hname
  · rename_i hname
    have hname := Bool.eq_false_iff.2 hname
    split
    · rename_i hpath
      exact .missing hname hpath
    · rename_i path hpath
      exact .found hname hpath

/-- What the loader does with a name is one of these. -/
theorem loads_loader (disk : Disk) (n : Nat) (kind : LibraryKind) (name : String)
    (w : Workspace) :
    Loads (loader disk n) disk kind name w (loader disk (n + 1) kind name w) :=
  loads_compileNamed (loader disk n) disk kind name w

/-- The disk, the files compiled before and the path determine what comes of a file. -/
theorem Compiles.eq {path : String} {result : Workspace × Option Problem}
    (h : Compiles load disk kind path w result) : compileFile load disk kind path w = result := by
  unfold compileFile
  cases h with
  | missing hfind => rw [hfind]
  | known hfind hknown =>
    rw [hfind]
    exact if_pos (Std.ExtTreeSet.contains_iff_mem.2 hknown)
  | unreadable hfind hnew htext | compiled hfind hnew htext =>
    rw [hfind]
    dsimp only
    rw [if_neg (fun hknown => hnew (Std.ExtTreeSet.contains_iff_mem.1 hknown)), htext]

/-- Whatever can become of a name does. -/
theorem Loads.eq {name : String} {result : Workspace × Option Problem}
    (h : Loads load disk kind name w result) : compileNamed load disk kind name w = result := by
  unfold compileNamed
  cases h with
  | standard hname => exact if_pos hname
  | missing hname hpath | found hname hpath =>
    rw [if_neg (by rw [hname]; exact Bool.false_ne_true), hpath]

end FlatNet.Loading
