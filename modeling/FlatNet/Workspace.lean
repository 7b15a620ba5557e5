import FlatNet.Disk.Path
import FlatNet.Library.Basic

/-!
# The workspace

A workspace holds what outlives a single compilation, the compiled libraries, and what belongs to
the current one: the definitions read so far, those that are still open, and the diagnostics.
-/

set_option autoImplicit false

namespace FlatNet

/-- The settings of a workspace. -/
structure Settings where
  /-- The directory that library names are resolved against. -/
  projectRoot : String := "."
  /-- The directory of circuits, seen from the project root. -/
  circuitDir : String := "cir"
  /-- The directory of libraries, seen from the project root. -/
  libDir : String := "lib"
  /-- Library files compiled into the built-in library. -/
  builtinLibraries : List String := []
  /-- The severity of the Laplace variable in a named model that forbids it. -/
  laplaceSeverity : Severity := .warning
  /-- The deepest nesting of instances that is expanded. -/
  maxDepth : Nat := 64
  /-- The largest number of instances that is expanded. -/
  maxExpansions : Nat := 100000

namespace Settings

/-- The places where a library file is looked for, in order: the project root, its directory of
circuits and its directory of libraries. -/
def libraryCandidates (s : Settings) (name : String) : List String :=
  if Path.isAbsolute name then [name]
  else
    [Path.join s.projectRoot name,
     Path.join (Path.join s.projectRoot s.circuitDir) name,
     Path.join (Path.join s.projectRoot s.libDir) name]

end Settings

/-- The state of a compiler. -/
structure Workspace where
  settings : Settings
  /-- The definitions that have been read. -/
  forest : Forest
  /-- The definitions that are being read, innermost first; the last one is the source text. -/
  opened : List Definition
  user : Library
  builtin : Library
  /-- The canonical paths of the library files that have been compiled. -/
  compiled : NameSet
  diagnostics : Diagnostics

namespace Workspace

/-- A workspace with a given built-in library; the files in it count as compiled. -/
def withBuiltin (settings : Settings) (builtin : Library) : Workspace :=
  { settings, builtin
    forest := ∅
    opened := []
    user := Library.empty
    compiled := NameSet.ofList builtin.files
    diagnostics := Diagnostics.empty }

/-- Forgets the last compilation and keeps the compiled libraries. -/
def reset (w : Workspace) : Workspace :=
  { w with forest := ∅, opened := [], diagnostics := Diagnostics.empty }

/-- The library of a kind. -/
def library (w : Workspace) : LibraryKind → Library
  | .builtin => w.builtin
  | .user => w.user

/-- Changes the library of a kind. -/
def updateLibrary (w : Workspace) (kind : LibraryKind) (f : Library → Library) : Workspace :=
  match kind with
  | .builtin => { w with builtin := f w.builtin }
  | .user => { w with user := f w.user }

/-- Records a finding. -/
def record (w : Workspace) (f : Finding) : Workspace :=
  { w with diagnostics := w.diagnostics.record f }

/-- Records findings one after another. -/
def recordAll (w : Workspace) (fs : List Finding) : Workspace :=
  { w with diagnostics := w.diagnostics.recordAll fs }

/-- The definitions of a store, by their paths. -/
def definitions (w : Workspace) : Store → NameMap Definition
  | .netlist => w.forest
  | .user => w.user.circuits
  | .builtin => w.builtin.circuits

/-- Changes the definitions of a store. -/
def updateDefinitions (w : Workspace) (store : Store)
    (f : NameMap Definition → NameMap Definition) : Workspace :=
  match store with
  | .netlist => { w with forest := f w.forest }
  | .user => { w with user := { w.user with circuits := f w.user.circuits } }
  | .builtin => { w with builtin := { w.builtin with circuits := f w.builtin.circuits } }

/-- The errors counted in the definitions that have been read. -/
def forestErrors (w : Workspace) : Nat := w.forest.errors

end Workspace

end FlatNet
