/-!
# Paths of files

Paths are texts with slashes.  Joining and naming look at the text only; what a path leads to is a
matter of the disk.
-/

set_option autoImplicit false

namespace FlatNet.Path

/-- The parts of a text between slashes. -/
def splitSlashes : List Char → List (List Char)
  | [] => [[]]
  | c :: cs =>
    if c = '/' then [] :: splitSlashes cs
    else
      match splitSlashes cs with
      | part :: parts => (c :: part) :: parts
      | [] => [[c]]

/-- The parts of a path between its slashes. -/
def parts (path : String) : List String := (splitSlashes path.toList).map String.ofList

/-- The path does not depend on a working directory. -/
def isAbsolute (path : String) : Bool := path.toList.head? == some '/'

/-- The path that leads from a directory along another path; an absolute path is not led from
anywhere. -/
def join (base path : String) : String :=
  if isAbsolute path then path
  else if base = "" || base.toList.getLast? = some '/' then base ++ path
  else base ++ "/" ++ path

/-- The name of the file that the path leads to; a path that ends by going up names none. -/
def fileName? (path : String) : Option String :=
  match ((parts path).filter fun part => part != "" && part != ".").getLast? with
  | some ".." => none
  | last => last

end FlatNet.Path
