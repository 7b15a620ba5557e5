import FlatNet.Proofs.Library.Silenced
import FlatNet.Proofs.Reading.Block
import FlatNet.Proofs.Reading.Netlist
import FlatNet.Proofs.Reading.References

/-!
# Errors counted in three ways

While a text is read, every error is counted by the reader, is among the diagnostics, and is counted
in the definition that is innermost when it is found.  Of these three numbers the first two are
equal in the end.  The third one falls behind when a sub-circuit is dropped because its path is
taken, for its errors go with it; `Counts` keeps the balance, over every line and over what is
closed at the end of the text.
-/

set_option autoImplicit false

namespace FlatNet.Reader

open Line (findingAt)

/-! ## Dropped definitions -/

/-- What is dropped when the innermost definition is closed: the definition itself, if its path is
taken. -/
def dropped (r : Reader) : List Definition :=
  match r.work.opened with
  | [] => []
  | d :: _ => if r.work.forest.contains d.path then [d] else []

/-- What a line drops. -/
def droppedInLine (r : Reader) (line : List Token) : List Definition :=
  if r.skipDepth = 0 ∧ nesting line = .closing ∧ 1 < r.work.opened.length then r.dropped else []

/-- What lines drop. -/
def droppedInLines (src : Source) (load : Loader) (r : Reader) : List (List Token) → List Definition
  | [] => []
  | line :: rest =>
    if r.ended then []
    else r.droppedInLine line ++ droppedInLines src load (r.readLine src load line) rest

/-- What the logical lines of a text drop.  The title line drops nothing, for there is no
sub-circuit to close. -/
def droppedInAll (src : Source) (load : Loader) (r : Reader) : List (List Token) → List Definition
  | [] => []
  | title :: rest => (r.readTitle src load title).droppedInLines src load rest

/-- What is dropped when the sub-circuits are closed that the text has left open. -/
def droppedAtEnd : Nat → Reader → List Definition
  | 0, _ => []
  | n + 1, r =>
    let r := r.report (.usual (.unterminatedSubcircuit r.current.name) r.current.origin)
    r.dropped ++ droppedAtEnd n r.close

/-- The sub-circuits that are dropped when a text is read, in the order in which they are closed. -/
def droppedOf (load : Loader) (src : Source) (path text : String) (w : Workspace) :
    List Definition :=
  ((initial src path text w).reportAll (faults src.file text)).droppedInAll src load
      (tokenize text).lines ++
    droppedAtEnd ((readText load src path text w).work.opened.length - 1)
      (readText load src path text w)

/-! ## The balance of errors -/

/-- The errors that are counted in definitions, open ones and closed ones. -/
def tally (r : Reader) : Nat := (r.work.opened.map Definition.errors).sum + r.work.forest.errors

/-- The errors found are those counted in definitions and so many more, which are lost. -/
structure Counts (lost : Nat) (r : Reader) : Prop where
  nonempty : 0 < r.work.opened.length
  errors : r.errors = r.tally + lost

/-- The errors of definitions. -/
def errorsOf (ds : List Definition) : Nat := (ds.map Definition.errors).sum

/-- The errors of two lists of definitions add up. -/
theorem errorsOf_append (ds ds' : List Definition) :
    errorsOf (ds ++ ds') = errorsOf ds + errorsOf ds' := by
  unfold errorsOf
  rw [List.map_append, List.sum_append]

/-- No errors are counted exactly if none is in any of the definitions. -/
theorem errorsOf_eq_zero_iff {ds : List Definition} :
    errorsOf ds = 0 ↔ ∀ d ∈ ds, d.errors = 0 := by
  unfold errorsOf
  rw [List.sum_eq_zero_iff_forall_eq_nat, List.forall_mem_map]

namespace Counts

variable {lost : Nat} {r : Reader} {src : Source} {load : Loader}

/-- The balance is kept by a finding: an error is counted in the innermost definition. -/
theorem report (h : Counts lost r) (f : Finding) : Counts lost (r.report f) := by
  have herrors := h.errors
  unfold tally at herrors
  refine ⟨by rw [length_opened_report]; exact h.nonempty, ?_⟩
  rw [report_eq]
  cases f.isError with
  | false => exact herrors
  | true =>
    show r.errors + 1 = ((r.work.opened.modifyHead countError).map Definition.errors).sum +
      r.work.forest.errors + lost
    rw [sum_errors_countError h.nonempty]
    omega

/-- The balance is kept by findings. -/
theorem reportAll (h : Counts lost r) (fs : List Finding) : Counts lost (r.reportAll fs) := by
  induction fs generalizing r with
  | nil => exact h
  | cons f rest ih => exact ih (h.report f)

/-- The balance is kept by a change that is no matter of errors. -/
theorem modifyCurrent (h : Counts lost r) {g : Definition → Definition}
    (hg : ∀ d, (g d).errors = d.errors) : Counts lost (r.modifyCurrent g) := by
  refine ⟨by rw [length_opened_modifyCurrent]; exact h.nonempty, ?_⟩
  rw [modifyCurrent_eq]
  show r.errors = ((r.work.opened.modifyHead g).map Definition.errors).sum +
    r.work.forest.errors + lost
  rw [sum_errors_modifyHead hg]
  exact h.errors

/-- The balance is kept when a definition without errors is opened. -/
theorem push (h : Counts lost r) {d : Definition} (hd : d.errors = 0) : Counts lost (r.push d) := by
  refine ⟨Nat.succ_pos _, ?_⟩
  show r.errors = d.errors + (r.work.opened.map Definition.errors).sum + r.work.forest.errors + lost
  rw [hd, Nat.zero_add]
  exact h.errors

/-- Closing a definition loses the errors of what is dropped. -/
theorem close (h : Counts lost r) (hdeep : 1 < r.work.opened.length) :
    Counts (lost + errorsOf r.dropped) r.close := by
  have herrors := h.errors
  unfold tally at herrors
  cases hopened : r.work.opened with
  | nil =>
    rw [hopened] at hdeep
    exact absurd hdeep (Nat.not_lt_zero _)
  | cons d around =>
    rw [hopened] at hdeep herrors
    have haround : 0 < around.length := Nat.lt_of_succ_lt_succ hdeep
    rw [List.map_cons, List.sum_cons] at herrors
    have hdropped : r.dropped = if r.work.forest.contains d.path then [d] else [] := by
      unfold dropped
      rw [hopened]
    cases hcontains : r.work.forest.contains d.path with
    | true =>
      rw [close_of_contains hopened hcontains, hdropped, if_pos hcontains]
      refine Counts.report ⟨haround, ?_⟩ _
      show r.errors = (around.map Definition.errors).sum + r.work.forest.errors +
        (lost + (d.errors + 0))
      omega
    | false =>
      rw [close_of_not_contains hopened hcontains, hdropped, if_neg (by rw [hcontains]; simp)]
      refine Counts.modifyCurrent ⟨haround, ?_⟩ fun _ => rfl
      show r.errors = (around.map Definition.errors).sum +
        Forest.errors (r.work.forest.insert d.path d) + (lost + 0)
      rw [Forest.errors_insert (NameMap.contains_eq_false_iff.1 hcontains)]
      omega

/-! ### Lines -/

/-- A line loses the errors of what it drops. -/
theorem readLine (h : Counts lost r) (src : Source) (load : Loader) {line : List Token}
    (hline : lineReferences line = []) :
    Counts (lost + errorsOf (r.droppedInLine line)) (r.readLine src load line) := by
  have hkept : ∀ {r' : Reader}, Counts lost r' →
      ¬ (r.skipDepth = 0 ∧ nesting line = .closing ∧ 1 < r.work.opened.length) →
      Counts (lost + errorsOf (r.droppedInLine line)) r' := by
    intro r' h' hnot
    unfold droppedInLine
    rw [if_neg hnot]
    exact h'
  have hreads : r.view.skipDepth = r.skipDepth := rfl
  have hlength : r.view.opened.length = r.work.opened.length := (length_opened_eq_view r).symm
  rw [readLine_eq]
  have hload : ∀ t, Action.load t ∉ actions src r.view line := load_not_mem_actions hline
  have hshape := lineShape_actions src r.view line
  revert hload hshape
  generalize actions src r.view line = as
  intro hload hshape
  have hother : ∀ {first : Token} {bracket : Bracket}, first.bracket = bracket →
      bracket ≠ .closing → ¬ first.bracket = .closing :=
    fun hbracket hne hclosing => hne (hbracket.symm.trans hclosing)
  cases hshape with
  | blank => exact hkept h fun hnot => absurd hnot.2.1 (by decide)
  | inner _ hfirst has =>
    have hinner := performAll_of_inner load (P := Counts lost) (fun f h => h.report f)
      (fun hg h => h.modifyCurrent hg.errors) has hload h
    exact hkept hinner fun hnot => hother hfirst (by decide) hnot.2.1
  | opens _ hfirst _ _ =>
    rw [performAll_cons, performAll_map_report]
    exact hkept ((h.push rfl).reportAll _) fun hnot => hother hfirst (by decide) hnot.2.1
  | @rejects _ _ f _ hfirst _ =>
    have hreport := h.report f
    exact hkept ⟨hreport.nonempty, hreport.errors⟩ fun hnot => hother hfirst (by decide) hnot.2.1
  | closes hzero hfirst hdeep =>
    rw [hlength] at hdeep
    unfold droppedInLine
    rw [if_pos ⟨hzero, hfirst, hdeep⟩]
    exact h.close hdeep
  | unmatched _ _ hshallow _ =>
    rw [hlength] at hshallow
    exact hkept (h.report _) fun hnot => by omega
  | stops hfirst =>
    exact hkept ⟨h.nonempty, h.errors⟩ fun hnot => hother hfirst (by decide) hnot.2.1
  | skips hskips _ => exact hkept h fun hnot => by omega
  | deeper hskips _ => exact hkept ⟨h.nonempty, h.errors⟩ fun hnot => by omega
  | shallower hskips _ => exact hkept ⟨h.nonempty, h.errors⟩ fun hnot => by omega

/-- Lines that load no library keep the balance, with what they drop added to what is lost. -/
theorem readLines (h : Counts lost r) (src : Source) (load : Loader) {lines : List (List Token)}
    (hlines : ∀ line ∈ lines, lineReferences line = []) :
    Counts (lost + errorsOf (r.droppedInLines src load lines)) (r.readLines src load lines) := by
  induction lines generalizing lost r with
  | nil => exact h
  | cons line rest ih =>
    obtain ⟨hline, hrest⟩ := List.forall_mem_cons.1 hlines
    unfold Reader.readLines droppedInLines
    split
    · exact h
    · rw [errorsOf_append, ← Nat.add_assoc]
      exact ih (h.readLine src load hline) hrest

/-- The title line loses nothing when only the text's own definition is open. -/
theorem readTitle (h : Counts lost r) (src : Source) (load : Loader) {line : List Token}
    (hline : lineReferences line = []) (hshallow : r.work.opened.length = 1) :
    Counts lost (r.readTitle src load line) := by
  unfold Reader.readTitle
  cases line with
  | nil => exact h.report _
  | cons first rest =>
    dsimp only
    split
    · exact h.modifyCurrent fun _ => rfl
    · have hread := (h.report (findingAt src.file first .missingTitle)).readLine src load hline
      have hnone : (r.report (findingAt src.file first .missingTitle)).droppedInLine
          (first :: rest) = [] := by
        refine if_neg fun hdeep => ?_
        rw [length_opened_report] at hdeep
        omega
      rw [hnone] at hread
      exact hread

/-! ### The end of a text -/

/-- Closing what is left over keeps the balance, with what is dropped added to what is lost. -/
theorem closeLeftOver (h : Counts lost r) (n : Nat) (hn : n < r.work.opened.length) :
    Counts (lost + errorsOf (droppedAtEnd n r)) (r.closeLeftOver n) := by
  induction n generalizing lost r with
  | zero => exact h
  | succ n ih =>
    unfold Reader.closeLeftOver droppedAtEnd
    have hreport := h.report (.usual (.unterminatedSubcircuit r.current.name) r.current.origin)
    have hlength := length_opened_report r
      (.usual (.unterminatedSubcircuit r.current.name) r.current.origin)
    dsimp only
    rw [errorsOf_append, ← Nat.add_assoc]
    refine ih (hreport.close (by omega)) ?_
    rw [length_opened_close]
    omega

/-- The end of the lines keeps the balance, with what is dropped added to what is lost. -/
theorem closeAll (h : Counts lost r) (src : Source) :
    Counts (lost + errorsOf (droppedAtEnd (r.work.opened.length - 1) r)) (r.closeAll src) := by
  have hnonempty := h.nonempty
  have hclosed := h.closeLeftOver (r.work.opened.length - 1) (by omega)
  unfold Reader.closeAll
  dsimp only
  split
  · exact hclosed.report _
  · exact hclosed

end Counts

/-! ## The text's own definition -/

/-- The open definitions of a text: its own one, with the given path, and inside it sub-circuits
with longer paths. -/
inductive Rooted (path : String) : List Definition → Prop
  | root {d : Definition} (hpath : d.path = path) : Rooted path [d]
  | sub {d : Definition} {around : List Definition} (hpath : path.length < d.path.length)
      (haround : Rooted path around) : Rooted path (d :: around)

namespace Rooted

variable {path : String} {opened : List Definition}

/-- The nesting depends on the paths of the open definitions alone. -/
theorem modifyHead (h : Rooted path opened) {g : Definition → Definition}
    (hg : ∀ d, (g d).path = d.path) : Rooted path (opened.modifyHead g) := by
  cases h with
  | root hpath => exact .root ((hg _).trans hpath)
  | sub hpath haround => exact .sub (by rwa [hg]) haround

/-- The definition around a sub-circuit has a shorter path. -/
theorem tail {d : Definition} {around : List Definition} (h : Rooted path (d :: around))
    (hdeep : 0 < around.length) : path.length < d.path.length ∧ Rooted path around := by
  cases h with
  | root _ => exact absurd hdeep (Nat.lt_irrefl 0)
  | sub hpath haround => exact ⟨hpath, haround⟩

/-- While a text is read its own definition is open. -/
theorem nonempty (h : Rooted path opened) : 0 < opened.length := by
  cases h <;> exact Nat.succ_pos _

/-- No open definition has a shorter path than the text's own one. -/
theorem le_head (h : Rooted path opened) : path.length ≤ (opened.headD default).path.length := by
  cases h with
  | root hpath => exact Nat.le_of_eq (congrArg String.length hpath.symm)
  | sub hpath _ => exact Nat.le_of_lt hpath

end Rooted

/-- A name inside a scope gives a longer path. -/
theorem length_lt_child {path parent name : String} (h : path.length ≤ parent.length)
    (hname : name.toList ≠ []) : path.length < (Scope.child parent name).length := by
  have hpos : 0 < name.length := by
    rw [← String.length_toList]
    exact List.length_pos_iff.2 hname
  unfold Scope.child
  split
  · rename_i hparent
    rw [hparent] at h
    exact Nat.lt_of_le_of_lt h hpos
  · rw [String.length_append, String.length_append]
    omega

/-- The reader reads a text whose own definition has the given path; closed sub-circuits have longer
ones. -/
structure Holds (path : String) (r : Reader) : Prop where
  opened : Rooted path r.work.opened
  forest : ∀ (other : String) (d : Definition), r.work.forest[other]? = some d →
    path.length < other.length

namespace Holds

variable {path : String} {r : Reader}

/-- The paths are kept by a change of the innermost definition that keeps its own. -/
theorem modifyCurrent (h : r.Holds path) {g : Definition → Definition}
    (hg : ∀ d, (g d).path = d.path) : (r.modifyCurrent g).Holds path := by
  rw [modifyCurrent_eq]
  exact ⟨h.opened.modifyHead hg, h.forest⟩

/-- The paths are kept by a finding. -/
theorem report (h : r.Holds path) (f : Finding) : (r.report f).Holds path := by
  rw [report_eq]
  cases f.isError with
  | false => exact ⟨h.opened, h.forest⟩
  | true => exact ⟨h.opened.modifyHead fun _ => rfl, h.forest⟩

/-- The paths are kept when a sub-circuit is closed. -/
theorem close (h : r.Holds path) (hdeep : 1 < r.work.opened.length) : r.close.Holds path := by
  have hrooted := h.opened
  cases hopened : r.work.opened with
  | nil =>
    rw [hopened] at hdeep
    exact absurd hdeep (Nat.not_lt_zero _)
  | cons d around =>
    rw [hopened] at hdeep hrooted
    obtain ⟨hpath, haround⟩ := hrooted.tail (Nat.lt_of_succ_lt_succ hdeep)
    cases hcontains : r.work.forest.contains d.path with
    | true =>
      have hpop : Holds path { r with work := { r.work with opened := around } } :=
        ⟨haround, h.forest⟩
      rw [close_of_contains hopened hcontains]
      exact hpop.report _
    | false =>
      rw [close_of_not_contains hopened hcontains]
      refine Holds.modifyCurrent ⟨haround, fun other e he => ?_⟩ fun _ => rfl
      rcases NameMap.getElem?_of_insert he with ⟨rfl, -⟩ | hold
      · exact hpath
      · exact h.forest other e hold

end Holds

/-- A reader that loads no libraries holds to the path of its text. -/
theorem keeps_holds (src : Source) (disk : Disk) (path : String) :
    Keeps src (Loading.loader disk 0) (Holds path) where
  opened := fun h => h.opened.nonempty
  report := fun f h _ => h.report f
  change := fun h _ hg => h.modifyCurrent hg.path
  opens := by
    intro r first name heading h hname hnamed
    refine ⟨.sub ?_ h.opened, h.forest⟩
    have hpath : r.view.current.path = r.current.path := by rw [current_view]; rfl
    show path.length < (Scope.child r.view.current.path name.text).length
    rw [hpath]
    exact length_lt_child h.opened.le_head (hnamed hname).1
  closes := fun h hdeep => h.close hdeep
  load := fun {_ t} h _ => h.report (findingAt src.file t (.libraryNotFound t.text))
  skipTo := fun _ h => ⟨h.opened, h.forest⟩
  stop := fun h => ⟨h.opened, h.forest⟩

/-! ## The three numbers -/

variable {text : String} {w : Workspace}

/-- At the end of a text of its own the errors found are those counted in definitions and those of
the definitions that have been dropped. -/
theorem counts_ofText (load : Loader) (src : Source) (path : String) (hforest : w.forest = ∅)
    (hopened : w.opened = []) (hreferences : libraryReferences text = []) :
    Counts (errorsOf (droppedOf load src path text w)) (ofText load src path text w) := by
  have hlines : ∀ line ∈ (tokenize text).lines, lineReferences line = [] :=
    List.flatMap_eq_nil_iff.1 hreferences
  have hinitial : Counts 0 (initial src path text w) := by
    refine ⟨Nat.succ_pos _, ?_⟩
    unfold tally initial
    dsimp only
    rw [hforest, hopened]
    rfl
  have hfaults := hinitial.reportAll (faults src.file text)
  have hlength : ((initial src path text w).reportAll (faults src.file text)).work.opened.length =
      1 := by
    rw [length_opened_reportAll]
    unfold initial
    dsimp only
    rw [hopened]
    rfl
  have hread : Counts (errorsOf (((initial src path text w).reportAll
      (faults src.file text)).droppedInAll src load (tokenize text).lines))
      (readText load src path text w) := by
    unfold readText readAll droppedInAll
    cases hcut : (tokenize text).lines with
    | nil => exact hfaults.report _
    | cons title rest =>
      rw [hcut] at hlines
      obtain ⟨htitle, hrest⟩ := List.forall_mem_cons.1 hlines
      have hbehind := (hfaults.readTitle src load htitle hlength).readLines src load hrest
      rwa [Nat.zero_add] at hbehind
  unfold droppedOf ofText
  rw [errorsOf_append]
  exact hread.closeAll src

/-- In the end the definitions of a text of its own hold the errors that have been found, but for
those of the definitions that have been dropped. -/
theorem forestErrors_settle (load : Loader) (src : Source) (path : String)
    (hforest : w.forest = ∅) (hopened : w.opened = []) (hreferences : libraryReferences text = []) :
    (ofText load src path text w).settle.work.forestErrors +
      errorsOf (droppedOf load src path text w) = (ofText load src path text w).errors := by
  have hcounts := counts_ofText load src path hforest hopened hreferences
  have hinitial : (initial src path text w).Holds path := by
    refine ⟨?_, fun other d hd => ?_⟩
    · show Rooted path (_ :: w.opened)
      rw [hopened]
      exact .root rfl
    · change w.forest[other]? = some d at hd
      rw [hforest] at hd
      exact absurd hd (by simp)
  have hkeeps := keeps_holds src Disk.empty path
  have hholds := hkeeps.ofText hinitial
  have hlength := hkeeps.length_opened_ofText hinitial
  rw [ofText_congr _ load path w hreferences] at hholds hlength
  revert hcounts hholds hlength
  generalize ofText load src path text w = r
  intro hcounts hholds hlength
  obtain ⟨root, hroot⟩ := List.length_eq_one_iff.1 hlength
  have hrooted := hholds.opened
  rw [hroot] at hrooted
  have hpath : root.path = path := by
    cases hrooted with
    | root hpath => exact hpath
    | sub _ haround => exact absurd haround.nonempty (Nat.lt_irrefl 0)
  have hfree : r.work.forest[root.path]? = none := by
    refine Option.eq_none_iff_forall_not_mem.2 fun d hd => ?_
    have hlonger := hholds.forest root.path d hd
    rw [hpath] at hlonger
    exact Nat.lt_irrefl _ hlonger
  have hsettle : r.settle.work.forest = r.work.forest.insert root.path root := by
    unfold settle
    rw [hroot]
  have herrors := hcounts.errors
  unfold tally at herrors
  rw [hroot, List.map_singleton, List.sum_singleton] at herrors
  show r.settle.work.forest.errors + _ = _
  rw [hsettle, Forest.errors_insert hfree]
  exact herrors.symm

/-- The errors found in a text that refers to no libraries are those that it adds to the
diagnostics. -/
theorem exists_added_ofText (load : Loader) (src : Source) (path : String) (w : Workspace)
    (hreferences : libraryReferences text = []) :
    ∃ added, (ofText load src path text w).findings = w.diagnostics.findings ++ added ∧
      errorCount added = (ofText load src path text w).errors := by
  have hkeeps : Keeps src (Loading.loader Disk.empty 0) fun r => 0 < r.work.opened.length ∧
      ∃ added, r.findings = w.diagnostics.findings ++ added ∧ errorCount added = r.errors := by
    refine keeps_of_findings (P := fun fs n => ∃ added, fs = w.diagnostics.findings ++ added ∧
      errorCount added = n) ?_ (fun _ _ h => h) (Loading.frames_loader Disk.empty 0)
    rintro fs n f ⟨added, rfl, rfl⟩
    exact ⟨added ++ f, List.append_assoc _ _ _, errorCount_append _ _⟩
  have hinitial : ∃ added, (initial src path text w).findings = w.diagnostics.findings ++ added ∧
      errorCount added = (initial src path text w).errors := ⟨[], (List.append_nil _).symm, rfl⟩
  rw [ofText_congr load (Loading.loader Disk.empty 0) path w hreferences]
  exact (hkeeps.ofText ⟨Nat.succ_pos _, hinitial⟩).2

/-- A text that refers to no libraries is read into a workspace without definitions.  The errors
found are those that the text adds to the diagnostics; those counted in its definitions fall behind
by the errors of the sub-circuits that have been dropped, so all three numbers are equal exactly if
there are none in them. -/
theorem forestErrors_readSource (load : Loader) (src : Source) (path text : String) (w : Workspace)
    (hforest : w.forest = ∅) (hopened : w.opened = [])
    (hreferences : libraryReferences text = []) :
    (∃ added, (readSource load src path text w).1.diagnostics.findings =
          w.diagnostics.findings ++ added ∧
        errorCount added = (readSource load src path text w).2) ∧
      (readSource load src path text w).1.forestErrors +
          errorsOf (droppedOf load src path text w) = (readSource load src path text w).2 ∧
      ((readSource load src path text w).1.forestErrors = (readSource load src path text w).2 ↔
        ∀ d ∈ droppedOf load src path text w, d.errors = 0) := by
  have hsettle := findings_settle (ofText load src path text w)
  have hbalance := forestErrors_settle load src path hforest hopened hreferences
  rw [readSource_eq]
  refine ⟨?_, hbalance, ?_⟩
  · obtain ⟨added, hadded, herrors⟩ := exists_added_ofText load src path w hreferences
    exact ⟨added, hsettle.1.trans hadded, herrors⟩
  · rw [← errorsOf_eq_zero_iff]
    dsimp only
    omega

/-! ### A duplicate with an error of its own -/

/-- A netlist with two sub-circuits `P`, the second one with an incomplete element. -/
def faultyDuplicate : String :=
  "t\n.subckt P a b\n.ends\n.subckt P a b\nR1 a\n.ends\n.end\n"

/-- In the netlist with two sub-circuits `P` one error goes with the second of them; the others that
are counted add up with it to those that are returned. -/
theorem forestErrors_readSource_duplicate :
    (droppedOf (Loading.loader Disk.empty 0) ⟨"n.cir", .netlist⟩ "" faultyDuplicate
        (Workspace.withBuiltin {} Library.empty)).map Definition.errors = [1] ∧
      (readSource (Loading.loader Disk.empty 0) ⟨"n.cir", .netlist⟩ "" faultyDuplicate
          (Workspace.withBuiltin {} Library.empty)).1.forestErrors +
        errorsOf (droppedOf (Loading.loader Disk.empty 0) ⟨"n.cir", .netlist⟩ "" faultyDuplicate
          (Workspace.withBuiltin {} Library.empty)) =
        (readSource (Loading.loader Disk.empty 0) ⟨"n.cir", .netlist⟩ "" faultyDuplicate
          (Workspace.withBuiltin {} Library.empty)).2 :=
  ⟨by decide +kernel,
    (forestErrors_readSource (Loading.loader Disk.empty 0) ⟨"n.cir", .netlist⟩ "" faultyDuplicate
      (Workspace.withBuiltin {} Library.empty) rfl rfl (by decide +kernel)).2.1⟩

/-- The error of the dropped `P` is counted in no definition that is left. -/
theorem not_forestErrors_duplicate :
    libraryReferences faultyDuplicate = [] ∧
      (readSource (Loading.loader Disk.empty 0) ⟨"n.cir", .netlist⟩ "" faultyDuplicate
        (Workspace.withBuiltin {} Library.empty)).2 = 2 ∧
      (readSource (Loading.loader Disk.empty 0) ⟨"n.cir", .netlist⟩ "" faultyDuplicate
        (Workspace.withBuiltin {} Library.empty)).1.forestErrors = 1 := by
  refine ⟨?_, ?_, ?_⟩ <;> decide +kernel

end FlatNet.Reader
