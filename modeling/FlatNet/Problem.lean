/-!
# Problems

Everything that can be wrong with a netlist, a library or a circuit.  A problem is its cause: its
class, its usual severity and its wording are functions of it.
-/

set_option autoImplicit false

namespace FlatNet

/-- The stage of the work that a problem belongs to. -/
inductive ProblemClass where
  | lexical
  | structural
  | reference
  | finalization
  | io
  deriving DecidableEq

namespace ProblemClass

/-- The word for a class. -/
def word : ProblemClass → String
  | lexical => "lexical"
  | structural => "structural"
  | reference => "reference"
  | finalization => "finalization"
  | io => "io"

end ProblemClass

/-- How serious a problem is; only errors are counted. -/
inductive Severity where
  | info
  | warning
  | error
  deriving DecidableEq

namespace Severity

/-- The word for a severity. -/
def word : Severity → String
  | info => "info"
  | warning => "warning"
  | error => "error"

end Severity

/-- Something wrong with a text or a circuit. -/
inductive Problem where
  /-- A character that begins no token. -/
  | illegalCharacter (char : Char)
  /-- A literal that has both a power of ten and a magnitude suffix. -/
  | malformedNumber (text : String)
  /-- An expression that cannot be read. -/
  | invalidExpression (text message : String)
  /-- An opening brace without its closing one. -/
  | unterminatedExpression
  /-- A quote without its closing one. -/
  | unterminatedString
  /-- A parameter name and an equals sign with nothing usable behind them. -/
  | missingParamValue (name : String)
  /-- A text without a title line. -/
  | missingTitle
  /-- An element line that lacks nodes, references or a value. -/
  | incompleteElement (refDes message : String)
  /-- An element whose first letter stands for no device. -/
  | unknownDevice (refDes : String)
  /-- A token that does not fit its line. -/
  | unexpectedToken (what text : String)
  /-- A command that does not exist. -/
  | unknownCommand (command : String)
  /-- A command with unusable arguments. -/
  | malformedCommand (command message : String)
  /-- A sub-circuit that is opened again while it is open. -/
  | hierarchyLoop (name : String)
  /-- An end of a sub-circuit where none is open. -/
  | unmatchedEnds
  /-- A sub-circuit that is still open at the end of the text. -/
  | unterminatedSubcircuit (name : String)
  /-- A netlist without an end command. -/
  | missingEnd
  /-- A reference designator that is used twice in a definition. -/
  | duplicateElement (refDes : String)
  /-- A model name that is defined twice in a definition. -/
  | duplicateModel (name : String)
  /-- A sub-circuit that is defined twice in a definition. -/
  | duplicateSubcircuit (name : String)
  /-- An expanded element whose name is already present. -/
  | nameCollision (refDes : String)
  /-- An instance nested more deeply than is allowed. -/
  | depthLimit (refDes : String) (limit : Nat)
  /-- More expansions than are allowed. -/
  | expansionLimit (limit : Nat)
  /-- A reference to an element that does not exist. -/
  | unknownReference (refDes target : String)
  /-- A model or sub-circuit name that is found nowhere. -/
  | unknownModel (refDes model : String)
  /-- An instance of a sub-circuit that is found nowhere. -/
  | unknownSubcircuit (refDes name : String)
  /-- A model that exists but not for this device. -/
  | modelNotAllowed (refDes model : String) (device : Char)
  /-- A model that is based on no primitive one. -/
  | unknownModelBase (model base : String)
  /-- A model parameter that its base does not have. -/
  | illegalModelParam (model base param : String)
  /-- An element parameter that its model does not have. -/
  | illegalElementParam (refDes model param : String)
  /-- An instance parameter that its sub-circuit does not have. -/
  | illegalInstanceParam (refDes subckt param : String)
  /-- An instance with another number of nodes than its sub-circuit. -/
  | portCountMismatch (refDes subckt : String) (expected found : Nat)
  /-- The Laplace variable where the model forbids it. -/
  | laplaceNotAllowed (owner param symbol : String)
  /-- A library file that is found nowhere. -/
  | libraryNotFound (path : String)
  /-- A library file that cannot be read. -/
  | libraryUnreadable (path message : String)
  /-- A reference to the library that is built in. -/
  | builtinLibraryReference (name : String)
  /-- A circuit without the ground node. -/
  | missingGround (ground : String)
  /-- A declared source that is no independent source. -/
  | unknownSource (name : String)
  /-- A declared detector that is no dependent variable. -/
  | unknownDetector (name : String)
  /-- A declared loop gain reference that is no controlled source. -/
  | unknownLoopGainReference (name : String)
  /-- A parameter that is used and defined nowhere. -/
  | undefinedParameter (name : String)
  /-- A netlist file that cannot be read. -/
  | netlistUnreadable (path message : String)
  deriving DecidableEq

namespace Problem

/-- The stage of the work that the problem belongs to. -/
def problemClass : Problem → ProblemClass
  | illegalCharacter _ | malformedNumber _ | invalidExpression _ _ | unterminatedExpression
  | unterminatedString | missingParamValue _ => .lexical
  | missingTitle | incompleteElement _ _ | unknownDevice _ | unexpectedToken _ _
  | unknownCommand _ | malformedCommand _ _ | hierarchyLoop _ | unmatchedEnds
  | unterminatedSubcircuit _ | missingEnd | duplicateElement _ | duplicateModel _
  | duplicateSubcircuit _ | nameCollision _ | depthLimit _ _ | expansionLimit _ => .structural
  | unknownReference _ _ | unknownModel _ _ | unknownSubcircuit _ _ | modelNotAllowed _ _ _
  | unknownModelBase _ _ | illegalModelParam _ _ _ | illegalElementParam _ _ _
  | illegalInstanceParam _ _ _ | portCountMismatch _ _ _ _ | laplaceNotAllowed _ _ _
  | libraryNotFound _ | libraryUnreadable _ _ | builtinLibraryReference _ => .reference
  | missingGround _ | unknownSource _ | unknownDetector _ | unknownLoopGainReference _
  | undefinedParameter _ => .finalization
  | netlistUnreadable _ _ => .io

/-- The severity that the problem usually has. -/
def severity : Problem → Severity
  | missingEnd | unknownCommand _ | builtinLibraryReference _ | unknownSource _
  | unknownDetector _ | unknownLoopGainReference _ => .warning
  | undefinedParameter _ => .info
  | _ => .error

/-- A text in single quotes. -/
def quoted (text : String) : String := "'" ++ text ++ "'"

/-- The wording of the problem. -/
def message : Problem → String
  | illegalCharacter char => "illegal character " ++ quoted char.toString
  | malformedNumber text => "malformed numeric literal " ++ quoted text
  | invalidExpression text message =>
    "invalid expression " ++ quoted ("\x7b" ++ text ++ "\x7d") ++ ": " ++ message
  | unterminatedExpression => "unterminated expression, missing '\x7d'"
  | unterminatedString => "unterminated quoted string"
  | missingParamValue name => "missing value for parameter " ++ quoted name
  | missingTitle => "missing circuit title"
  | incompleteElement refDes message =>
    "incomplete specification of element " ++ quoted refDes ++ ": " ++ message
  | unknownDevice refDes => "unknown device type for element " ++ quoted refDes
  | unexpectedToken what text => "unexpected " ++ what ++ " " ++ quoted text
  | unknownCommand command => "unknown command " ++ quoted ("." ++ command)
  | malformedCommand command message =>
    "malformed " ++ quoted ("." ++ command) ++ " command: " ++ message
  | hierarchyLoop name => "hierarchy loop: sub-circuit " ++ quoted name ++ " is already open"
  | unmatchedEnds => "'.ends' without matching '.subckt'"
  | unterminatedSubcircuit name =>
    "sub-circuit " ++ quoted name ++ " is not terminated with '.ends'"
  | missingEnd => "missing '.end' command"
  | duplicateElement refDes => "duplicate element " ++ quoted refDes
  | duplicateModel name => "duplicate model definition " ++ quoted name
  | duplicateSubcircuit name => "duplicate sub-circuit definition " ++ quoted name
  | nameCollision refDes =>
    "element name collision " ++ quoted refDes ++ " during expansion"
  | depthLimit refDes limit =>
    "hierarchy of " ++ quoted refDes ++ " exceeds depth " ++ toString limit ++
      " (recursive instantiation?)"
  | expansionLimit limit =>
    "expansion aborted after " ++ toString limit ++ " sub-circuit expansions"
  | unknownReference refDes target =>
    "element " ++ quoted refDes ++ " references unknown element " ++ quoted target
  | unknownModel refDes model =>
    "unknown model or sub-circuit " ++ quoted model ++ " for element " ++ quoted refDes
  | unknownSubcircuit refDes name =>
    "unknown sub-circuit " ++ quoted name ++ " instantiated by " ++ quoted refDes
  | modelNotAllowed refDes model device =>
    "model " ++ quoted model ++ " cannot be used with device " ++ quoted device.toString ++
      " (" ++ quoted refDes ++ ")"
  | unknownModelBase model base =>
    "model " ++ quoted model ++ " is based on unknown primitive " ++ quoted base
  | illegalModelParam model base param =>
    "parameter " ++ quoted param ++ " is not a parameter of model " ++ quoted model ++
      " (base " ++ quoted base ++ ")"
  | illegalElementParam refDes model param =>
    "parameter " ++ quoted param ++ " is not a parameter of model " ++ quoted model ++
      " (" ++ quoted refDes ++ ")"
  | illegalInstanceParam refDes subckt param =>
    quoted param ++ " is not a parameter of sub-circuit " ++ quoted subckt ++
      " (" ++ quoted refDes ++ ")"
  | portCountMismatch refDes subckt expected found =>
    quoted refDes ++ " connects " ++ toString found ++ " nodes but sub-circuit " ++
      quoted subckt ++ " has " ++ toString expected
  | laplaceNotAllowed owner param symbol =>
    "Laplace variable " ++ quoted symbol ++ " not allowed in parameter " ++ quoted param ++
      " of " ++ quoted owner
  | libraryNotFound path => "library file " ++ quoted path ++ " not found"
  | libraryUnreadable path message =>
    "cannot read library file " ++ quoted path ++ ": " ++ message
  | builtinLibraryReference name =>
    "library " ++ quoted name ++ " is built in and always available; reference ignored"
  | missingGround ground => "circuit has no ground node " ++ quoted ground
  | unknownSource name => quoted name ++ " is not an independent source"
  | unknownDetector name =>
    quoted name ++ " is not a dependent variable and cannot be a detector"
  | unknownLoopGainReference name =>
    quoted name ++ " is not a controlled source and cannot be a loop gain reference"
  | undefinedParameter name => "undefined parameter " ++ quoted name
  | netlistUnreadable path message =>
    "Failed to read netlist file " ++ quoted path ++ ": " ++ message

end Problem

end FlatNet
