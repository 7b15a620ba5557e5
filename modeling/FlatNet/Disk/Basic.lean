import FlatNet.Disk.Path
import FlatNet.Names

/-!
# The disk

A disk is a snapshot: a fixed function that takes a path to the canonical path of what it leads
to, and the finitely many objects that stand under canonical paths.
-/

set_option autoImplicit false

namespace FlatNet

/-- An object on the disk. -/
inductive DiskObject where
  | directory
  | file (bytes : ByteArray)

/-- A snapshot of the disk. -/
structure Disk where
  /-- The canonical form of a path that leads somewhere. -/
  canonical? : String → Option String
  /-- The objects by their canonical paths. -/
  objects : NameMap DiskObject

namespace Disk

/-- A disk without objects. -/
def empty : Disk := ⟨fun _ => none, ∅⟩

/-- The object that a path leads to, with its canonical path. -/
def find? (disk : Disk) (path : String) : Option (String × DiskObject) :=
  (disk.canonical? path).bind fun canonical =>
    (disk.objects[canonical]?).map fun object => (canonical, object)

/-- The path leads to a file. -/
def isFile (disk : Disk) (path : String) : Bool :=
  match disk.find? path with
  | some (_, .file _) => true
  | _ => false

/-- The text of an object, or why there is none. -/
def textOf : DiskObject → Except String String
  | .directory => .error "Is a directory (os error 21)"
  | .file bytes =>
    match String.fromUTF8? bytes with
    | some text => .ok text
    | none => .error "stream did not contain valid UTF-8"

/-- The text that a path leads to, or why there is none. -/
def read (disk : Disk) (path : String) : Except String String :=
  match disk.find? path with
  | some (_, object) => textOf object
  | none => .error "No such file or directory (os error 2)"

end Disk

end FlatNet
