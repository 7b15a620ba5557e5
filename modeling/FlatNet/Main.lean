import FlatNet.CommandLine
import FlatNet.Reading.References

/-!
# The program

The program takes a snapshot of the part of the disk that it can need: the netlist, the configured
libraries, and every place where a library named in one of these files, or in a file found there,
would be looked for.  Everything else is done on the snapshot.
-/

set_option autoImplicit false

namespace FlatNet.Survey

/-- The part of the disk seen so far: canonical paths, and the objects under them. -/
structure Seen where
  canonical : NameMap String
  objects : NameMap DiskObject

/-- The snapshot of what has been seen. -/
def Seen.disk (seen : Seen) : Disk := ⟨fun path => seen.canonical[path]?, seen.objects⟩

/-- The object at a path of the real disk, if there is one. -/
def look (path : String) : IO (Option (String × DiskObject)) := do
  try
    let real ← IO.FS.realPath path
    if ← real.isDir then return some (real.toString, .directory)
    return some (real.toString, .file (← IO.FS.readBinFile real))
  catch _ => return none

/-- The places where the libraries named in a file would be looked for. -/
def placesNamedIn (settings : Settings) : DiskObject → List String
  | .directory => []
  | .file bytes =>
    ((String.fromUTF8? bytes).map fun text =>
      (libraryReferences text).flatMap settings.libraryCandidates).getD []

/-- Looks at the pending places and at those that the files found there lead to. -/
partial def explore (settings : Settings) (visited : NameSet) (seen : Seen) :
    List String → IO Seen
  | [] => return seen
  | path :: pending => do
    if visited.contains path then return ← explore settings visited seen pending
    let visited := visited.insert path
    match ← look path with
    | none => explore settings visited seen pending
    | some (canonical, object) =>
      let seen : Seen :=
        ⟨seen.canonical.insert path canonical, seen.objects.insert canonical object⟩
      explore settings visited seen (placesNamedIn settings object ++ pending)

/-- The snapshot for a request. -/
def diskFor (request : CommandLine.Request) : IO Disk := do
  let places := request.netlist.toList ++ request.settings.builtinLibraries
  return (← explore request.settings ∅ ⟨∅, ∅⟩ places).disk

end FlatNet.Survey

/-- Runs the program with the given arguments. -/
def main (args : List String) : IO UInt32 := do
  let disk ←
    match FlatNet.CommandLine.parse args with
    | some request => FlatNet.Survey.diskFor request
    | none => pure FlatNet.Disk.empty
  let outcome := FlatNet.CommandLine.run disk args
  (← IO.getStderr).putStr outcome.errorOutput
  (← IO.getStdout).putStr outcome.output
  return UInt32.ofNat outcome.exitCode
