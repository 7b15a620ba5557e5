import FlatNet.Token.LogicalLine

/-!
# References to libraries

The library names that occur on the lines of a text, whether or not the lines are ever read.
-/

set_option autoImplicit false

namespace FlatNet

/-- The command refers to libraries. -/
def isLibraryCommand (command : Token) : Bool :=
  command.isCommand &&
    (command.text == ".lib" || command.text == ".include" || command.text == ".inc")

/-- The library names on a line. -/
def lineReferences : List Token → List String
  | [] => []
  | command :: args =>
    if isLibraryCommand command then (args.filter Token.isLibraryName).map Token.text else []

/-- The library names on the lines of a text. -/
def libraryReferences (text : String) : List String := (tokenize text).lines.flatMap lineReferences

end FlatNet
