import FlatNet.Definition

/-!
# Libraries

A library is what compiled library files have contributed: sub-circuits, models and global
parameters.  Contributions are only ever added: a name that is taken keeps its meaning.  A
sub-circuit in which an error was found is left out together with everything defined inside it, so
that its instances find nothing.
-/

set_option autoImplicit false

namespace FlatNet

/-- The two libraries that definitions are looked up in. -/
inductive LibraryKind where
  /-- Compiled once, and shared. -/
  | builtin
  /-- Filled by the library lines of netlists. -/
  | user
  deriving DecidableEq

namespace LibraryKind

/-- The store in which the library's sub-circuits are addressed. -/
def store : LibraryKind → Store
  | builtin => .builtin
  | user => .user

end LibraryKind

/-- Compiled library definitions. -/
structure Library where
  /-- The sub-circuits by their paths. -/
  circuits : NameMap Definition
  models : NameMap ModelCard
  /-- The global parameters. -/
  params : NameMap Expr
  /-- The canonical paths of the files compiled into the library, in order. -/
  files : List String

/-- The entries of both maps; where both have a name, the entry of the first. -/
def NameMap.keepFirst {α : Type} (old new : NameMap α) : NameMap α :=
  new.toList.foldl (fun m entry => m.insertIfNew entry.1 entry.2) old

namespace Library

/-- A library without definitions. -/
def empty : Library := ⟨∅, ∅, ∅, []⟩

instance : Inhabited Library := ⟨empty⟩

/-- An error was found in the definition at the path. -/
def hasErrors (defs : Forest) (path : String) : Bool :=
  (defs[path]?).any fun d => 0 < d.errors

/-- The definition at the path is left out: an error was found in it or in a sub-circuit around
it.  Errors outside all sub-circuits only affect the definitions made there. -/
def isExcluded (defs : Forest) (path : String) : Bool :=
  (Scope.outward path).any fun p => hasErrors defs p && (p == path || p != "")

/-- The definitions that may be added to a library. -/
def admissible (defs : Forest) : Forest := defs.filter fun path _ => !isExcluded defs path

/-- The library with the definitions of a library text added.  They are given by their paths
inside the text, whose own definition has the empty path and gives models and parameters; its
elements are ignored. -/
def promote (lib : Library) (defs : Forest) : Library :=
  let kept := admissible defs
  let lib :=
    match kept[""]? with
    | some root =>
      { lib with
        params := NameMap.keepFirst lib.params root.params
        models := NameMap.keepFirst lib.models root.models }
    | none => lib
  { lib with circuits := NameMap.keepFirst lib.circuits (kept.erase "") }

/-- The library with a file noted as compiled into it. -/
def noteFile (lib : Library) (file : String) : Library :=
  { lib with files := lib.files ++ [file] }

end Library

end FlatNet
