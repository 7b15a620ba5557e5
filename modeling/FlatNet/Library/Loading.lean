import FlatNet.Disk.Basic
import FlatNet.Library.Standard
import FlatNet.Reading.Source
import FlatNet.Resolution

/-!
# Compiling libraries

A library text is read under a path of its own, its definitions are taken out of the forest again
and resolved, and the sound ones are added to the library.  A file is noted as compiled before it
is read, so that a library which refers to itself, directly or through others, is compiled once.

Reading a library may load further libraries.  Every file that is loaded inside another one has
been noted, so the nesting is never deeper than the number of files on the disk: `Loading.loader`
is defined by recursion on a bound of the nesting, and `Disk.loader` uses that number.
-/

set_option autoImplicit false

namespace FlatNet

namespace Loading

/-- The path under which a library text is read. -/
def namespaceOf (label : String) : String :=
  "lib:" ++ String.ofList (label.toList.map fun c => if c = '/' ∨ c = '\\' then '_' else c)

/-- The name refers to the standard library. -/
def isStandard (name : String) : Bool := Path.fileName? name == some StandardLibrary.fileName

/-- The path of a forest belongs to the text that was read under the path `space`. -/
def belongsTo (space path : String) : Bool := path == space || Scope.isWithin space path

/-- The definitions of the text that was read under the path `space`, by their paths inside it. -/
def extracted (forest : Forest) (space : String) : Forest :=
  (forest.toList.filter fun entry => belongsTo space entry.1).foldl
    (fun defs entry =>
      let path := Scope.relativeTo space entry.1
      defs.insert path { entry.2 with path := path })
    ∅

/-- The definitions of other texts. -/
def remaining (forest : Forest) (space : String) : Forest :=
  forest.filter fun path _ => !belongsTo space path

/-- What names in a text of the given store are resolved against. -/
def surroundings (store : Store) (w : Workspace) : Surroundings :=
  ⟨store, w.user, w.builtin, w.settings.laplaceSeverity⟩

/-- Compiles a library text; the second result is the number of errors. -/
def compileText (load : Loader) (kind : LibraryKind) (label text : String) (w : Workspace) :
    Workspace × Nat :=
  let space := namespaceOf label
  let (read, errors) := readSource load ⟨label, .library kind⟩ space text { w with opened := [] }
  let w' := { read with opened := w.opened, forest := remaining read.forest space }
  let (defs, findings) := (extracted read.forest space).resolve (surroundings kind.store w')
  ((w'.recordAll findings).updateLibrary kind (·.promote defs), errors + errorCount findings)

/-- Compiles the library file at a path, unless it has been compiled already. -/
def compileFile (load : Loader) (disk : Disk) (kind : LibraryKind) (path : String)
    (w : Workspace) : Workspace × Option Problem :=
  match disk.find? path with
  | none => (w, some (.libraryNotFound path))
  | some (canonical, object) =>
    if w.compiled.contains canonical then (w, none)
    else
      let w := { w with compiled := w.compiled.insert canonical }
      match Disk.textOf object with
      | .error message => (w, some (.libraryUnreadable path message))
      | .ok text =>
        (((compileText load kind path text w).1).updateLibrary kind (·.noteFile canonical), none)

/-- Compiles the library that a line refers to by name. -/
def compileNamed (load : Loader) (disk : Disk) : Loader := fun kind name w =>
  if isStandard name then (w, some (.builtinLibraryReference name))
  else
    match (w.settings.libraryCandidates name).find? disk.isFile with
    | none => (w, some (.libraryNotFound name))
    | some path => compileFile load disk kind path w

/-- The loader for libraries nested less deeply than the bound. -/
def loader (disk : Disk) : Nat → Loader
  | 0 => fun _ name w => (w, some (.libraryNotFound name))
  | n + 1 => compileNamed (loader disk n) disk

end Loading

namespace Disk

/-- The loader of libraries from the disk. -/
def loader (disk : Disk) : Loader := Loading.loader disk (disk.objects.size + 1)

end Disk

namespace Workspace

/-- Reads a source text into the workspace. -/
def readSource (w : Workspace) (disk : Disk) (src : Source) (path text : String) :
    Workspace × Nat :=
  FlatNet.readSource disk.loader src path text w

/-- Compiles a library text; the second result is the number of errors. -/
def compileLibraryText (w : Workspace) (disk : Disk) (kind : LibraryKind) (label text : String) :
    Workspace × Nat :=
  Loading.compileText disk.loader kind label text w

/-- Compiles the library file at a path. -/
def compileLibrary (w : Workspace) (disk : Disk) (kind : LibraryKind) (path : String) :
    Workspace × Option Problem :=
  Loading.compileFile disk.loader disk kind path w

/-- Compiles the library that is found under a name. -/
def includeLibrary (w : Workspace) (disk : Disk) (kind : LibraryKind) (name : String) :
    Workspace × Option Problem :=
  disk.loader kind name w

/-- Compiles a configured built-in library; its problem has no place. -/
def compileConfigured (disk : Disk) (w : Workspace) (path : String) : Workspace :=
  match w.compileLibrary disk .builtin path with
  | (w, none) => w
  | (w, some problem) => w.record (.usual problem none)

/-- Forgets all compiled libraries and compiles the built-in ones again: the standard library,
then the configured files. -/
def rebuild (w : Workspace) (disk : Disk) : Workspace :=
  let bare := { w.reset with user := Library.empty, builtin := Library.empty, compiled := ∅ }
  let standard :=
    (bare.compileLibraryText disk .builtin StandardLibrary.fileName StandardLibrary.text).1
  w.settings.builtinLibraries.foldl (compileConfigured disk) standard

/-- A workspace with freshly compiled built-in libraries. -/
def new (settings : Settings) (disk : Disk) : Workspace :=
  (withBuiltin settings Library.empty).rebuild disk

/-- Resolves the names of the netlist that has been read; the second result is the number of
errors. -/
def resolve (w : Workspace) : Workspace × Nat :=
  let (forest, findings) := w.forest.resolve (Loading.surroundings .netlist w)
  ({ w with forest := forest }.recordAll findings, errorCount findings)

end Workspace

/-- The library that is built into every workspace without further settings. -/
def Library.standard : Library := (Workspace.new {} Disk.empty).builtin

end FlatNet
