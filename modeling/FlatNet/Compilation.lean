import FlatNet.Circuit.Completion
import FlatNet.Library.Loading

/-!
# Compilation of netlists

A netlist is read, its names are resolved, its instances are expanded and the circuit is completed.
Resolution and expansion only take place while no error has been counted in the definitions of the
netlist; a circuit that stops short has a title and the number of errors.
-/

set_option autoImplicit false

namespace FlatNet.Workspace

/-- The circuit of a netlist whose definitions are in error. -/
def stopped (w : Workspace) : Circuit :=
  { Circuit.titled (((w.forest[""]?).map Definition.title).getD "") with
    errors := w.forestErrors }

/-- Compiles the text of a netlist; the compiled libraries are kept and used. -/
def compile (w : Workspace) (disk : Disk) (label text : String) : Workspace × Circuit :=
  let (read, _) := w.reset.readSource disk ⟨label, .netlist⟩ "" text
  if 0 < read.forestErrors then (read, read.stopped)
  else
    let (resolved, _) := read.resolve
    if 0 < resolved.forestErrors then (resolved, resolved.stopped)
    else
      let (expanded, circuit) := resolved.flatten
      expanded.complete circuit

/-- Compiles the netlist file at a path. -/
def compileFile (w : Workspace) (disk : Disk) (path : String) :
    Except Problem (Workspace × Circuit) :=
  match disk.read path with
  | .error message => .error (.netlistUnreadable path message)
  | .ok text => .ok (w.compile disk path text)

end FlatNet.Workspace
