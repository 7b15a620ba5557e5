/-!
# Scopes

Definitions are nested, and the place of a definition is its path: the names from the outermost
scope to the definition itself, joined by slashes.  The empty path is the netlist itself.
-/

set_option autoImplicit false

namespace FlatNet.Scope

/-- The path of a name inside a scope. -/
def child (parent name : String) : String :=
  if parent = "" then name else parent ++ "/" ++ name

/-- The beginnings of a path that end before a slash, the shortest first. -/
def beforeSlashes : List Char → List (List Char)
  | [] => []
  | c :: cs => (if c = '/' then [[]] else []) ++ (beforeSlashes cs).map (c :: ·)

/-- The path itself and the paths around it, from the inside to the outside; the last one is the
empty path. -/
def outward (path : String) : List String :=
  path :: ((beforeSlashes path.toList).reverse.map String.ofList ++
    if path = "" then [] else [""])

/-- The last name of a path. -/
def lastName (path : String) : String :=
  String.ofList (path.toList.reverse.takeWhile (· != '/')).reverse

/-- The path lies inside the scope. -/
def isWithin (scope path : String) : Bool := (scope ++ "/").toList.isPrefixOf path.toList

/-- The part of a path behind the scope that it lies inside; the scope itself becomes the empty
path. -/
def relativeTo (scope path : String) : String :=
  if isWithin scope path then String.ofList (path.toList.drop (scope.length + 1)) else ""

end FlatNet.Scope
