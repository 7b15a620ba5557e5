import FlatNet.Reading.Line
import FlatNet.Workspace

/-!
# Reading source texts

A source text is a netlist or a library.  Its definitions are read into the forest of a workspace
under the path that is given to its outermost one.  While a text is read, the definitions that are
open form a stack whose last entry is the text itself; every error is counted in the innermost
open definition.

A line that refers to a library has the library compiled before the next line is read.  How that is
done is a parameter here, a `Loader`, so that reading is defined without the disk.
-/

set_option autoImplicit false

namespace FlatNet

/-- Compiles the library of a name into a workspace; a problem may be left to the line that refers
to the library. -/
abbrev Loader : Type := LibraryKind → String → Workspace → Workspace × Option Problem

/-- What a source text is read as. -/
inductive SourceKind where
  | netlist
  | library (kind : LibraryKind)
  deriving DecidableEq

/-- A source text: where it comes from and what it is read as. -/
structure Source where
  file : String
  kind : SourceKind

namespace Source

/-- The library that references in the text are compiled into. -/
def libraryKind (s : Source) : LibraryKind :=
  match s.kind with
  | .netlist => .user
  | .library kind => kind

/-- The name of the outermost definition of the text. -/
def rootName (s : Source) (path : String) : String :=
  match s.kind with
  | .netlist => "main"
  | .library _ => path

end Source

/-- The state of reading a source text. -/
structure Reader where
  work : Workspace
  /-- The number of sub-circuits that are open inside a rejected one, itself included. -/
  skipDepth : Nat
  /-- The end command has been read. -/
  ended : Bool
  /-- The number of errors found. -/
  errors : Nat

namespace Reader

open Line (findingAt unexpected originOf)

/-- Changes the innermost open definition. -/
def modifyCurrent (r : Reader) (f : Definition → Definition) : Reader :=
  match r.work.opened with
  | [] => r
  | current :: around => { r with work := { r.work with opened := f current :: around } }

/-- The innermost open definition. -/
def current (r : Reader) : Definition := r.work.opened.headD default

/-- Records a finding; an error is counted in the innermost open definition. -/
def report (r : Reader) (f : Finding) : Reader :=
  let r := { r with work := r.work.record f }
  if f.isError then
    { r with errors := r.errors + 1 }.modifyCurrent fun d => { d with errors := d.errors + 1 }
  else r

/-- Records findings one after another. -/
def reportAll (r : Reader) (fs : List Finding) : Reader := fs.foldl report r

/-- Opens a definition. -/
def push (r : Reader) (d : Definition) : Reader :=
  { r with work := { r.work with opened := d :: r.work.opened } }

/-- Begins to skip a rejected sub-circuit. -/
def skip (r : Reader) : Reader := { r with skipDepth := 1 }

/-- A sub-circuit line.  A sub-circuit without name, and one that is open already, are skipped. -/
def readSubckt (src : Source) (command : Token) (args : List Token) (r : Reader) : Reader :=
  match args with
  | [] => (r.report (findingAt src.file command
      (.malformedCommand "subckt" "missing sub-circuit name"))).skip
  | name :: rest =>
    if !name.isIdentifier then
      (r.report (findingAt src.file command
        (.malformedCommand "subckt" "missing sub-circuit name"))).skip
    else if r.work.opened.dropLast.any fun d => d.name == name.text then
      (r.report (findingAt src.file name (.hierarchyLoop name.text))).skip
    else
      let heading := Line.readHeading src.file rest
      let blank := Definition.blank name.text (Scope.child r.current.path name.text) name.text
        (some (originOf src.file command))
      (r.push { blank with nodes := heading.nodes, formals := heading.formals }).reportAll
        heading.findings

/-- Closes the innermost sub-circuit and adds it to the forest; if its path is taken, it is
dropped and the definition around it is in error. -/
def close (r : Reader) : Reader :=
  match r.work.opened with
  | [] => r
  | d :: around =>
    let r := { r with work := { r.work with opened := around } }
    if r.work.forest.contains d.path then
      r.report (.usual (.duplicateSubcircuit d.name) d.origin)
    else
      { r with work := { r.work with forest := r.work.forest.insert d.path d } }.modifyCurrent
        fun parent => { parent with subcircuits := parent.subcircuits ++ [d.name] }

/-- The end of a sub-circuit. -/
def readEnds (src : Source) (command : Token) (r : Reader) : Reader :=
  if r.work.opened.length ≤ 1 then r.report (findingAt src.file command .unmatchedEnds)
  else r.close

/-- A line of parameter definitions. -/
def readParam (src : Source) (command : Token) (args : List Token) (r : Reader) : Reader :=
  if args.isEmpty then
    r.report (findingAt src.file command (.malformedCommand "param" "no parameter definitions"))
  else
    let list := Line.readParams src.file "parameter definition" r.current.params args
    (r.modifyCurrent fun d => { d with params := list.params }).reportAll list.findings

/-- A line that defines a named model; the first model of a name is kept. -/
def readModel (src : Source) (command : Token) (args : List Token) (r : Reader) : Reader :=
  match Line.readCard? src.file args with
  | none =>
    r.report (findingAt src.file command
      (.malformedCommand "model" "expected '.model <name> <type> [params]'"))
  | some (head, card, findings) =>
    let r := r.reportAll findings
    if r.current.models.contains card.name then
      r.report (findingAt src.file head (.duplicateModel card.name))
    else r.modifyCurrent fun d => { d with models := d.models.insert card.name card }

/-- One name on a line that refers to libraries. -/
def readLibraryName (src : Source) (load : Loader) (r : Reader) (t : Token) : Reader :=
  if !t.isLibraryName then r.report (unexpected src.file "library file name" t)
  else
    let r := r.modifyCurrent fun d => { d with libraries := d.libraries ++ [t.text] }
    match load src.libraryKind t.text r.work with
    | (work, none) => { r with work := work }
    | (work, some problem) => { r with work := work }.report (findingAt src.file t problem)

/-- A line that refers to libraries. -/
def readLibraries (src : Source) (load : Loader) (command : Token) (args : List Token)
    (r : Reader) : Reader :=
  if args.isEmpty then
    r.report (findingAt src.file command (.malformedCommand "lib" "missing library file name"))
  else args.foldl (readLibraryName src load) r

/-- The definition with a name declared by one of the three declaring commands. -/
def declare (keyword : String) (declaration : Declaration) (d : Definition) : Definition :=
  if keyword = "source" then { d with sources := d.sources ++ [declaration] }
  else if keyword = "detector" then { d with detectors := d.detectors ++ [declaration] }
  else { d with loopGainRefs := d.loopGainRefs ++ [declaration] }

/-- One name on a declaring line. -/
def readDeclaration (src : Source) (keyword : String) (r : Reader) (t : Token) : Reader :=
  if t.isNodeName then
    r.modifyCurrent (declare keyword ⟨t.text, originOf src.file t⟩)
  else r.report (unexpected src.file "identifier" t)

/-- A line that declares sources, detectors or loop gain references. -/
def readDeclarations (src : Source) (keyword : String) (command : Token) (args : List Token)
    (r : Reader) : Reader :=
  if args.isEmpty then
    r.report (findingAt src.file command (.malformedCommand keyword "missing identifier"))
  else args.foldl (readDeclaration src keyword) r

/-- The end of the text. -/
def readEnd (r : Reader) : Reader := { r with ended := true, skipDepth := 0 }

/-- The name of a command without its points. -/
def commandName (command : Token) : String :=
  String.ofList (command.text.toList.dropWhile (· == '.'))

/-- A command line. -/
def readCommand (src : Source) (load : Loader) (command : Token) (args : List Token)
    (r : Reader) : Reader :=
  match command.text with
  | ".subckt" => r.readSubckt src command args
  | ".ends" => r.readEnds src command
  | ".param" => r.readParam src command args
  | ".model" => r.readModel src command args
  | ".lib" | ".include" | ".inc" => r.readLibraries src load command args
  | ".source" | ".detector" | ".lgref" =>
    r.readDeclarations src (commandName command) command args
  | ".end" => r.readEnd
  | _ => r.report (findingAt src.file command (.unknownCommand (commandName command)))

/-- An element line; the first element of a name is kept. -/
def readElement (src : Source) (head : Token) (tokens : List Token) (r : Reader) : Reader :=
  match Device.ofRefDes? head.text with
  | none => r.report (findingAt src.file head (.unknownDevice head.text))
  | some device =>
    match Line.readElement src.file head device tokens with
    | .error finding => r.report finding
    | .ok line =>
      let r := r.reportAll line.findings
      if r.current.elements.contains head.text then
        r.report (findingAt src.file head (.duplicateElement head.text))
      else
        r.modifyCurrent fun d => { d with elements := d.elements.insert head.text line.element }

/-- A line while a rejected sub-circuit is skipped: only the nesting of sub-circuits counts. -/
def skipLine (first : Token) (r : Reader) : Reader :=
  if first.isCommand then
    match first.text with
    | ".subckt" => { r with skipDepth := r.skipDepth + 1 }
    | ".ends" => { r with skipDepth := r.skipDepth - 1 }
    | ".end" => r.readEnd
    | _ => r
  else r

/-- A line behind the title. -/
def readLine (src : Source) (load : Loader) (r : Reader) (line : List Token) : Reader :=
  match line with
  | [] => r
  | first :: rest =>
    if 0 < r.skipDepth then r.skipLine first
    else if first.isCommand then r.readCommand src load first rest
    else if first.isIdentifier then r.readElement src first rest
    else r.report (unexpected src.file "token" first)

/-- The title line. -/
def readTitle (src : Source) (load : Loader) (r : Reader) (line : List Token) : Reader :=
  match line with
  | [] => r.report (.usual .missingTitle none)
  | first :: _ =>
    match first.kind with
    | .quotedString => r.modifyCurrent fun d => { d with title := first.text }
    | _ => (r.report (findingAt src.file first .missingTitle)).readLine src load line

/-- The lines behind the title, up to the end command. -/
def readLines (src : Source) (load : Loader) (r : Reader) : List (List Token) → Reader
  | [] => r
  | line :: rest => if r.ended then r else readLines src load (r.readLine src load line) rest

/-- Closes sub-circuits that the text has left open, at most the given number. -/
def closeLeftOver : Nat → Reader → Reader
  | 0, r => r
  | n + 1, r =>
    closeLeftOver n
      (r.report (.usual (.unterminatedSubcircuit r.current.name) r.current.origin)).close

/-- The end of reading: what is still open is closed, and the text's own definition is added to
the forest. -/
def finish (src : Source) (r : Reader) : Reader :=
  let r := closeLeftOver (r.work.opened.length - 1) r
  let r :=
    if !r.ended && src.kind = .netlist then r.report (.usual .missingEnd none) else r
  match r.work.opened with
  | [] => r
  | root :: around =>
    let work :=
      { r.work with opened := around, forest := r.work.forest.insert root.path root }
    { r with work := work }

end Reader

/-- Reads a source text into a workspace, its own definition getting the path `path`; the second
result is the number of errors. -/
def readSource (load : Loader) (src : Source) (path text : String) (w : Workspace) :
    Workspace × Nat :=
  let tokenized := tokenize text
  let root := Definition.blank (src.rootName path) path "" (some ⟨src.file, 1, 1⟩)
  let work :=
    { w with
      diagnostics := w.diagnostics.addSource src.file text
      opened := root :: w.opened }
  let start : Reader := ⟨work, 0, false, 0⟩
  let r := start.reportAll
    (tokenized.faults.map fun f => .usual f.problem (some ⟨src.file, f.line, f.column⟩))
  let r :=
    match tokenized.lines with
    | [] => r.report (.usual .missingTitle none)
    | title :: rest => (r.readTitle src load title).readLines src load rest
  let r := r.finish src
  (r.work, r.errors)

end FlatNet
