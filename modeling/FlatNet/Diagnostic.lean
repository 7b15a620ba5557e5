import FlatNet.Names
import FlatNet.Problem
import FlatNet.Text.Lines

/-!
# Diagnostics

Work never stops at a problem: each one is recorded with its place and with the line of text that
stands there.  A pass of the compiler produces `Finding`s; `Diagnostics` collects them and attaches
the lines of the texts it has been given.
-/

set_option autoImplicit false

namespace FlatNet

/-- A place in a text; lines and columns are counted from one. -/
structure Origin where
  file : String
  line : Nat
  column : Nat
  deriving DecidableEq

namespace Origin

/-- The place as it is shown. -/
def text (o : Origin) : String := o.file ++ ":" ++ toString o.line ++ ":" ++ toString o.column

end Origin

/-- A problem that has been found, with its severity and its place. -/
structure Finding where
  problem : Problem
  severity : Severity
  origin : Option Origin
  deriving DecidableEq

namespace Finding

/-- The problem with its usual severity. -/
def usual (problem : Problem) (origin : Option Origin) : Finding :=
  ⟨problem, problem.severity, origin⟩

/-- The finding counts as an error. -/
def isError (f : Finding) : Bool := f.severity == .error

end Finding

/-- The number of errors among findings. -/
def errorCount (findings : List Finding) : Nat := findings.countP Finding.isError

/-- A finding together with the line of text at its place. -/
structure Diagnostic extends Finding where
  sourceLine : Option String
  deriving DecidableEq

namespace Diagnostic

/-- Blanks as wide as the characters before a column; tabs are kept. -/
def padding (line : String) (column : Nat) : String :=
  String.ofList ((line.toList.take (column - 1)).map fun c => if c = '\t' then '\t' else ' ')

/-- The line of text with its number and a caret under the column. -/
def excerpt (origin : Origin) (line : String) : String :=
  let number := toString origin.line
  let margin := String.ofList (List.replicate number.length ' ')
  "\n" ++ margin ++ " |\n" ++ number ++ " | " ++ line ++ "\n" ++ margin ++ " | " ++
    padding line origin.column ++ "^"

/-- The diagnostic as it is shown: severity, class and wording, then the place, then the line. -/
def render (d : Diagnostic) : String :=
  let head :=
    d.severity.word ++ "[" ++ d.problem.problemClass.word ++ "]: " ++ d.problem.message
  match d.origin with
  | none => head
  | some origin =>
    head ++ "\n --> " ++ origin.text ++ ((d.sourceLine.map (excerpt origin)).getD "")

end Diagnostic

/-- The diagnostics recorded so far, in order, and the lines of the texts they refer to. -/
structure Diagnostics where
  items : Array Diagnostic
  sources : NameMap (Array String)

namespace Diagnostics

/-- Nothing recorded. -/
def empty : Diagnostics := ⟨#[], ∅⟩

instance : Inhabited Diagnostics := ⟨empty⟩

/-- Makes the lines of a text known under its name. -/
def addSource (d : Diagnostics) (file text : String) : Diagnostics :=
  { d with sources := d.sources.insert file (Text.quotedLines text) }

/-- The line of text at a place, if the text is known and has that line. -/
def lineAt? (d : Diagnostics) (origin : Origin) : Option String :=
  match origin.line with
  | 0 => none
  | n + 1 => (d.sources[origin.file]?).bind (·[n]?)

/-- Records a finding. -/
def record (d : Diagnostics) (f : Finding) : Diagnostics :=
  { d with items := d.items.push ⟨f, f.origin.bind d.lineAt?⟩ }

/-- Records findings one after another. -/
def recordAll (d : Diagnostics) (findings : List Finding) : Diagnostics :=
  findings.foldl record d

/-- The findings that have been recorded, in order. -/
def findings (d : Diagnostics) : List Finding := d.items.toList.map Diagnostic.toFinding

/-- The number of recorded errors. -/
def errors (d : Diagnostics) : Nat := errorCount d.findings

/-- A finding is recorded behind the others. -/
@[simp] theorem findings_record (d : Diagnostics) (f : Finding) :
    (d.record f).findings = d.findings ++ [f] := by
  simp [findings, record]

/-- Findings are recorded one after another behind the others. -/
@[simp] theorem findings_recordAll (d : Diagnostics) (fs : List Finding) :
    (d.recordAll fs).findings = d.findings ++ fs := by
  induction fs generalizing d with
  | nil => simp [recordAll]
  | cons f fs ih =>
    have := ih (d.record f)
    simp only [recordAll, List.foldl_cons] at this ⊢
    simp [this]

/-- Recording a finding adds no source. -/
@[simp] theorem sources_record (d : Diagnostics) (f : Finding) :
    (d.record f).sources = d.sources := rfl

/-- Adding a source records no finding. -/
@[simp] theorem findings_addSource (d : Diagnostics) (file text : String) :
    (d.addSource file text).findings = d.findings := rfl

end Diagnostics

end FlatNet
