import FlatNet.Compilation

/-!
# The command line

The program compiles one netlist file.  It writes the circuit to the standard output and the
diagnostics to the standard error stream, each followed by an empty line, and succeeds if the
circuit was compiled without errors.
-/

set_option autoImplicit false

namespace FlatNet.CommandLine

/-- What the program has been asked to do. -/
structure Request where
  netlist : Option String := none
  settings : Settings := {}

/-- What the program leaves behind. -/
structure Outcome where
  exitCode : Nat
  output : String
  errorOutput : String

/-- A severity by its word, as far as it can be asked for. -/
def severity? : String → Option Severity
  | "warning" => some .warning
  | "error" => some .error
  | _ => none

/-- The number that a row of digits stands for; a plus sign may stand before it. -/
def count? (value : String) : Option Nat :=
  let digits := match value.toList with
    | '+' :: rest => rest
    | cs => cs
  if digits.isEmpty || !digits.all Char.isDigit then none else some (digitsValue digits)

/-- Sets an option to a value. -/
def setOption? (settings : Settings) (option value : String) : Option Settings :=
  match option with
  | "--project" => some { settings with projectRoot := value }
  | "--lib-dir" => some { settings with libDir := value }
  | "--circuit-dir" => some { settings with circuitDir := value }
  | "--builtin" =>
    some { settings with builtinLibraries := settings.builtinLibraries ++ [value] }
  | "--laplace-severity" =>
    (severity? value).map fun s => { settings with laplaceSeverity := s }
  | "--max-depth" => (count? value).map fun n => { settings with maxDepth := n }
  | _ => none

/-- Splits an argument at its first equals sign. -/
def splitAssignment (arg : String) : Option (String × String) :=
  match arg.toList.dropWhile (· != '=') with
  | _ :: value => some (String.ofList (arg.toList.takeWhile (· != '=')), String.ofList value)
  | [] => none

/-- The argument is an option. -/
def isOption (arg : String) : Bool := "--".toList.isPrefixOf arg.toList

/-- Takes the arguments one after another; an option has its value behind an equals sign or in
the next argument, and one file is named. -/
def parseFrom (request : Request) : List String → Option Request
  | [] => some request
  | arg :: rest =>
    if isOption arg then
      match splitAssignment arg with
      | some (option, value) =>
        match setOption? request.settings option value with
        | some settings => parseFrom { request with settings } rest
        | none => none
      | none =>
        match rest with
        | value :: rest =>
          match setOption? request.settings arg value with
          | some settings => parseFrom { request with settings } rest
          | none => none
        | [] => none
    else if request.netlist.isNone then parseFrom { request with netlist := some arg } rest
    else none

/-- What the arguments ask for. -/
def parse (args : List String) : Option Request := parseFrom {} args

/-- How the program is called. -/
def usage : String :=
  "usage: FILE [--project DIR] [--lib-dir DIR] [--circuit-dir DIR] [--builtin FILE]... " ++
    "[--laplace-severity warning|error] [--max-depth N]\n"

/-- Compiles a netlist file with the given settings. -/
def compile (disk : Disk) (settings : Settings) (netlist : String) : Outcome :=
  match (Workspace.new settings disk).compileFile disk netlist with
  | .error problem => ⟨1, "", "error: " ++ problem.message ++ "\n"⟩
  | .ok (w, circuit) =>
    { exitCode := if circuit.isOk then 0 else 1
      output := circuit.text ++ "\n"
      errorOutput := String.join (w.diagnostics.items.toList.map fun d => d.render ++ "\n\n") }

/-- Runs the program. -/
def run (disk : Disk) (args : List String) : Outcome :=
  match parse args with
  | some ⟨some netlist, settings⟩ => compile disk settings netlist
  | _ => ⟨2, "", usage⟩

end FlatNet.CommandLine
