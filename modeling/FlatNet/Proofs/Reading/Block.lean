import FlatNet.Library.Loading
import FlatNet.Proofs.Reading.Run

/-!
# Blocks of lines

A block runs from the line that opens a sub-circuit to the line that closes it; in its body every
sub-circuit that is opened is closed as well, and the text does not end.  A reader that rejects the
first line of a block passes over the whole block, whatever its lines say: inside, only the nesting
of sub-circuits counts, also where a nested one could not have been read.
-/

set_option autoImplicit false

namespace FlatNet

/-- What a line means for the nesting of sub-circuits. -/
def nesting : List Token → Bracket
  | [] => .plain
  | first :: _ => first.bracket

/-- Lines in which sub-circuits are closed in the order in which they have been opened. -/
inductive Body where
  | nil
  | line (line : List Token) (hline : nesting line = .plain) (rest : Body)
  /-- A sub-circuit between its first and its last line, and what stands behind it. -/
  | block (head : List Token) (hhead : nesting head = .opening) (inner : Body)
      (tail : List Token) (htail : nesting tail = .closing) (rest : Body)

namespace Body

/-- The lines of a body. -/
def lines : Body → List (List Token)
  | nil => []
  | line l _ rest => l :: rest.lines
  | block head _ inner tail _ rest => head :: (inner.lines ++ tail :: rest.lines)

end Body

/-- A sub-circuit from its first to its last line. -/
structure Block where
  head : List Token
  hhead : nesting head = .opening
  body : Body
  tail : List Token
  htail : nesting tail = .closing

namespace Block

/-- The lines of a block. -/
def lines (b : Block) : List (List Token) := b.head :: (b.body.lines ++ [b.tail])

end Block

/-- Only commands mean something for the nesting. -/
theorem Token.isCommand_of_bracket {t : Token} (h : t.bracket ≠ .plain) : t.isCommand = true := by
  cases hcommand : t.isCommand with
  | true => rfl
  | false => exact absurd (Token.bracket_of_isCommand_eq_false hcommand) h

/-- One command opens sub-circuits. -/
theorem Bracket.eq_of_ofCommand_eq_opening {text : String} (h : Bracket.ofCommand text = .opening) :
    text = ".subckt" := by
  unfold Bracket.ofCommand at h
  split at h <;> first | rfl | exact absurd h (by decide)

/-- One command closes sub-circuits. -/
theorem Bracket.eq_of_ofCommand_eq_closing {text : String} (h : Bracket.ofCommand text = .closing) :
    text = ".ends" := by
  unfold Bracket.ofCommand at h
  split at h <;> first | rfl | exact absurd h (by decide)

/-- The name that a line gives to the sub-circuit that it opens. -/
def openedName? : List Token → Option String
  | _ :: name :: _ => if name.isIdentifier then some name.text else none
  | _ => none

namespace Reader

variable {src : Source} {load : Loader} {r : Reader}

/-! ## The first line of a block -/

/-- The names of the sub-circuits that are open, innermost first. -/
def openNames (r : Reader) : List String := r.work.opened.dropLast.map Definition.name

/-- The line opens no sub-circuit: it gives no name, or the name of a sub-circuit that is open. -/
def Rejects (r : Reader) (head : List Token) : Prop :=
  ∀ name, openedName? head = some name → name ∈ r.openNames

instance (r : Reader) (head : List Token) : Decidable (r.Rejects head) :=
  match h : openedName? head with
  | none => .isTrue fun _ hname => absurd (h.symm.trans hname) (by simp)
  | some name =>
    decidable_of_iff (name ∈ r.openNames)
      ⟨fun hmem _ hname => Option.some.inj (h.symm.trans hname) ▸ hmem, fun hall => hall name h⟩

/-- A line that opens a sub-circuit is read as its heading, unless lines are being skipped. -/
theorem readLine_of_opening (hreads : r.skipDepth = 0) {first : Token} (rest : List Token)
    (hfirst : first.bracket = .opening) :
    r.readLine src load (first :: rest) = r.readSubckt src first rest := by
  have hcommand : first.isCommand = true := Token.isCommand_of_bracket (by rw [hfirst]; decide)
  have htext : first.text = ".subckt" := by
    rw [Token.bracket_of_isCommand hcommand rfl] at hfirst
    exact Bracket.eq_of_ofCommand_eq_opening hfirst
  unfold readLine readCommand
  dsimp only
  rw [if_neg (by omega), if_pos hcommand, htext]
  rfl

/-- A line that closes a sub-circuit closes the innermost one, unless lines are being skipped. -/
theorem readLine_of_closing (hreads : r.skipDepth = 0) {first : Token} (rest : List Token)
    (hfirst : first.bracket = .closing) (hdeep : 1 < r.work.opened.length) :
    r.readLine src load (first :: rest) = r.close := by
  have hcommand : first.isCommand = true := Token.isCommand_of_bracket (by rw [hfirst]; decide)
  have htext : first.text = ".ends" := by
    rw [Token.bracket_of_isCommand hcommand rfl] at hfirst
    exact Bracket.eq_of_ofCommand_eq_closing hfirst
  unfold readLine readCommand readEnds
  dsimp only
  rw [if_neg (by omega), if_pos hcommand, htext]
  exact if_neg (by omega)

/-- A name is taken exactly if it is among those of the open sub-circuits. -/
theorem any_openNames (r : Reader) (name : String) :
    (r.work.opened.dropLast.any fun d => d.name == name) = decide (name ∈ r.openNames) := by
  unfold openNames
  rw [Bool.eq_iff_iff, decide_eq_true_iff, List.any_eq_true, List.mem_map]
  simp

/-- A sub-circuit that is rejected is reported and skipped. -/
theorem readLine_of_rejects (src : Source) (load : Loader) (hreads : r.skipDepth = 0)
    {head : List Token} (hhead : nesting head = .opening) (hrejects : r.Rejects head) :
    ∃ f : Finding, f.isError = true ∧ r.readLine src load head = (r.report f).skip := by
  cases head with
  | nil => exact absurd hhead (by decide)
  | cons first rest =>
    rw [readLine_of_opening hreads rest hhead]
    unfold readSubckt
    cases rest with
    | nil => exact ⟨_, rfl, rfl⟩
    | cons name args =>
      dsimp only
      split
      · exact ⟨_, rfl, rfl⟩
      · rename_i hname
        have hname : openedName? (first :: name :: args) = some name.text :=
          if_pos (by simpa using hname)
        rw [any_openNames, if_pos (decide_eq_true (hrejects name.text hname))]
        exact ⟨_, rfl, rfl⟩

/-! ## Passing over a block -/

/-- While a rejected sub-circuit is skipped, a line counts for the nesting of sub-circuits alone. -/
theorem readLine_of_skipping (hskips : 0 < r.skipDepth) (line : List Token) :
    r.readLine src load line =
      match nesting line with
      | .opening => { r with skipDepth := r.skipDepth + 1 }
      | .closing => { r with skipDepth := r.skipDepth - 1 }
      | .final => r.readEnd
      | .plain => r := by
  cases line with
  | nil => rfl
  | cons first rest =>
    unfold readLine nesting
    dsimp only
    rw [if_pos hskips]
    unfold skipLine Token.bracket Bracket.ofCommand
    generalize first.text = text
    split
    · split
      · rfl
      · rfl
      · rfl
      · simp [*]
    · rfl

/-- A reader that skips comes out of a body as it has come to it. -/
theorem readLines_body_of_skipping (src : Source) (load : Loader) (b : Body) {r : Reader}
    (hended : r.ended = false) (hskips : 0 < r.skipDepth) :
    r.readLines src load b.lines = r := by
  induction b generalizing r with
  | nil => rfl
  | line l hline rest ih =>
    unfold Body.lines
    rw [readLines_cons hended, readLine_of_skipping hskips, hline]
    exact ih hended hskips
  | block head hhead inner tail htail rest ihInner ihRest =>
    unfold Body.lines
    rw [readLines_cons hended, readLine_of_skipping hskips, hhead, readLines_append]
    dsimp only
    -- one deeper inside, and back again behind the last line
    rw [ihInner (r := { r with skipDepth := r.skipDepth + 1 }) hended (Nat.succ_pos _),
      readLines_cons (by exact hended), readLine_of_skipping (Nat.succ_pos _), htail]
    exact ihRest hended hskips

/-- A reader that is skipping lines passes over a block and is as it was before. -/
theorem readLines_block_of_skipping (src : Source) (load : Loader) (b : Block)
    (hended : r.ended = false) (hskips : 0 < r.skipDepth) : r.readLines src load b.lines = r :=
  readLines_body_of_skipping src load (.block b.head b.hhead b.body b.tail b.htail .nil) hended
    hskips

/-- Of a rejected sub-circuit only its error is left behind. -/
theorem readLines_block_of_rejects (src : Source) (load : Loader) (b : Block)
    (hended : r.ended = false) (hreads : r.skipDepth = 0) (hrejects : r.Rejects b.head) :
    ∃ f : Finding, f.isError = true ∧ r.readLines src load b.lines = r.report f := by
  obtain ⟨f, herror, hhead⟩ := readLine_of_rejects src load hreads b.hhead hrejects
  refine ⟨f, herror, ?_⟩
  have hended' : (r.report f).skip.ended = false := by
    rw [report_eq]
    exact hended
  have hskips : 0 < (r.report f).skip.skipDepth := Nat.one_pos
  unfold Block.lines
  rw [readLines_cons hended, hhead, readLines_append,
    readLines_body_of_skipping src load b.body hended' hskips, readLines_cons hended',
    readLine_of_skipping hskips, b.htail, report_eq]
  dsimp only [readLines, skip]
  rw [hreads]

/-- A reader passes over a rejected sub-circuit exactly: behind the last line of the block it is not
skipping, one more error has been found and counted in the innermost definition that is open, and
all else is as before the first line. -/
theorem skips_rejected_block (src : Source) (load : Loader) (r : Reader) (b : Block)
    (hended : r.ended = false) (hreads : r.skipDepth = 0) (hrejects : r.Rejects b.head) :
    ∃ f : Finding, f.isError = true ∧
      r.readLines src load b.lines =
        { r with
          skipDepth := 0
          work := { r.work with
            diagnostics := r.work.diagnostics.record f
            opened := r.work.opened.modifyHead countError }
          errors := r.errors + 1 } := by
  obtain ⟨f, herror, hlines⟩ := readLines_block_of_rejects src load b hended hreads hrejects
  refine ⟨f, herror, ?_⟩
  rw [hlines, report_eq, herror, if_pos rfl, if_pos rfl, hreads]

/-! ### A sub-circuit inside one of the same name -/

/-- The first logical line behind the title. -/
def lineOf (text : String) : List Token := ((tokenize ("t\n" ++ text)).lines[1]?).getD []

/-- A netlist in which the sub-circuit `P` is open. -/
def insideP : Reader :=
  readText (Loading.loader Disk.empty 0) ⟨"n.cir", .netlist⟩ "" "t\n.subckt P a b"
    (Workspace.withBuiltin {} Library.empty)

/-- The first line opens a sub-circuit. -/
theorem nesting_heading : nesting (lineOf ".subckt P a b") = .opening := by decide +kernel

/-- The line of a resistor is plain. -/
theorem nesting_resistor : nesting (lineOf "R1 a b 1") = .plain := by decide +kernel

/-- The last line closes a sub-circuit. -/
theorem nesting_ends : nesting (lineOf ".ends") = .closing := by decide +kernel

/-- A sub-circuit `P` with a resistor and a sub-circuit without name. -/
def repetition : Block where
  head := lineOf ".subckt P a b"
  hhead := nesting_heading
  body :=
    .line (lineOf "R1 a b 1") nesting_resistor
      (.block (lineOf ".subckt") (by decide +kernel) .nil (lineOf ".ends") nesting_ends .nil)
  tail := lineOf ".ends"
  htail := nesting_ends

/-- A sub-circuit `P` inside `P` is rejected: its lines are passed over, and one error is
counted. -/
theorem skips_rejected_block_repetition :
    insideP.Rejects repetition.head ∧ insideP.work.opened.length = 2 ∧
      ∃ f : Finding, f.isError = true ∧
        insideP.readLines ⟨"n.cir", .netlist⟩ (Loading.loader Disk.empty 0) repetition.lines =
          { insideP with
            skipDepth := 0
            work := { insideP.work with
              diagnostics := insideP.work.diagnostics.record f
              opened := insideP.work.opened.modifyHead countError }
            errors := insideP.errors + 1 } := by
  have hrejects : insideP.Rejects repetition.head := by decide +kernel
  exact ⟨hrejects, by decide +kernel,
    skips_rejected_block _ _ insideP repetition (by decide +kernel) (by decide +kernel) hrejects⟩

end Reader

end FlatNet
