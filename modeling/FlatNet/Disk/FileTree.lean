import FlatNet.Disk.Basic

/-!
# File trees

A tree of files with a working directory, and the disk that it makes.  A path is walked part by
part: every part but the last must stand in a directory, an empty part and a single point stay
where they are, and two points go up.  Nothing stands above the root.
-/

set_option autoImplicit false

namespace FlatNet

/-- Files and directories with a working directory, which is given by its parts, innermost
first. -/
structure FileTree where
  working : List String
  objects : NameMap DiskObject

namespace FileTree

/-- The canonical path of a place given by its parts, innermost first. -/
def pathOf (place : List String) : String := "/" ++ "/".intercalate place.reverse

/-- Makes the place and everything around it directories. -/
def withDirectories (objects : NameMap DiskObject) : List String → NameMap DiskObject
  | [] => objects.insert (pathOf []) .directory
  | part :: around =>
    (withDirectories objects around).insert (pathOf (part :: around)) .directory

/-- The tree that holds only its working directory. -/
def rooted (working : List String) : FileTree := ⟨working, withDirectories ∅ working⟩

/-- The place one part further on. -/
def enter (place : List String) (part : String) : List String :=
  if part = "" || part = "." then place
  else if part = ".." then place.tail
  else part :: place

/-- Where a path sets out: the root, or the working directory. -/
def start (tree : FileTree) (path : String) : List String :=
  if Path.isAbsolute path then [] else tree.working

/-- Follows the parts from a directory and makes a directory wherever nothing stands yet, also
where a later part goes up again, with the place that the parts lead to; none if a file stands in
the way. -/
def makeWay : NameMap DiskObject → List String → List String →
    Option (NameMap DiskObject × List String)
  | objects, place, [] => some (objects, place)
  | objects, place, part :: rest =>
    let next := enter place part
    match objects[pathOf next]? with
    | some .directory => makeWay objects next rest
    | some (.file _) => none
    | none => makeWay (objects.insert (pathOf next) .directory) next rest

/-- The tree with a file written at a path, the directories on the way being made.  Nothing is
written where the way is barred or where the path can only lead to a directory. -/
def write (tree : FileTree) (path : String) (bytes : ByteArray) : FileTree :=
  let parts := Path.parts path
  let name := parts.getLast?.getD ""
  if name = "" || name = "." || name = ".." then tree
  else
    match makeWay tree.objects (tree.start path) parts.dropLast with
    | none => tree
    | some (objects, place) =>
      match objects[pathOf (name :: place)]? with
      | some .directory => { tree with objects }
      | _ => { tree with objects := objects.insert (pathOf (name :: place)) (.file bytes) }

/-- A directory stands at the place. -/
def isDirectory (tree : FileTree) (place : List String) : Bool :=
  match tree.objects[pathOf place]? with
  | some .directory => true
  | _ => false

/-- The place that the parts lead to, if something stands there. -/
def walk (tree : FileTree) : List String → List String → Option (List String)
  | place, [] => if tree.objects.contains (pathOf place) then some place else none
  | place, part :: rest =>
    if tree.isDirectory place then walk tree (enter place part) rest else none

/-- The canonical form of a path that leads somewhere. -/
def canonical? (tree : FileTree) (path : String) : Option String :=
  if path = "" then none
  else (tree.walk (tree.start path) (Path.parts path)).map pathOf

/-- The disk that the tree makes. -/
def disk (tree : FileTree) : Disk := ⟨tree.canonical?, tree.objects⟩

end FileTree

end FlatNet
