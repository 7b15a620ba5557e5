import FlatNet.Disk.FileTree
import FlatNet.Proofs.Accepted
import FlatNet.Proofs.Library.Silenced
import FlatNet.Proofs.Library.Standard

/-!
# The verdict

Whether a circuit is accepted is decided by its number of errors, and these are the errors that have
been found in the netlist itself: while it was read, resolved, expanded and completed.  What is
found wrong inside a library is reported, too, but does not count.  So the verdict agrees with the
diagnostics unless the only errors among them are those of libraries.
-/

set_option autoImplicit false

namespace FlatNet

/-- Completion counts the errors that it finds. -/
theorem Circuit.errors_complete_eq (c : Circuit) (g : Globals) :
    (c.complete g).1.errors = c.errors + errorCount (c.complete g).2 := by
  unfold complete
  dsimp only
  split <;> rfl

namespace Workspace

/-! ## Finishing a netlist -/

/-- What is found wrong when the flattened netlist is completed. -/
def completionFindings (w : Workspace) : List Finding := (w.flatten.2.complete w.globals).2

/-- What is found wrong with a netlist after it has been read. -/
def finishFindings (w : Workspace) : List Finding :=
  if 0 < w.forestErrors then []
  else if 0 < w.resolve.1.forestErrors then w.resolutionFindings
  else
    w.resolutionFindings ++ (w.resolve.1.expansionFindings ++ w.resolve.1.completionFindings)

/-- Completing a circuit in a workspace records what is found wrong with it. -/
theorem complete_eq (w : Workspace) (c : Circuit) :
    w.complete c = (w.recordAll (c.complete w.globals).2, (c.complete w.globals).1) := rfl

/-- Finishing a netlist reports what is found wrong. -/
theorem findings_finishNetlist (w : Workspace) :
    w.finishNetlist.1.diagnostics.findings = w.diagnostics.findings ++ w.finishFindings := by
  unfold finishNetlist finishFindings
  split
  · exact (List.append_nil _).symm
  · split
    · exact w.findings_resolve
    · have hglobals : w.resolve.1.flatten.1.globals = w.resolve.1.globals := by
        rw [flatten_fst]
        rfl
      rw [complete_eq, findings_recordAll, flatten_fst, findings_recordAll, findings_resolve,
        ← flatten_fst, hglobals, List.append_assoc, List.append_assoc]
      rfl

/-- The errors of a circuit are those counted in the definitions that have been read, and those
found afterwards. -/
theorem errors_finishNetlist (w : Workspace) :
    w.finishNetlist.2.errors = w.forestErrors + errorCount w.finishFindings := by
  unfold finishNetlist finishFindings
  split
  · rfl
  · rename_i hread
    split
    · exact w.forestErrors_resolve
    · rename_i hresolved
      have hcomplete : (w.resolve.1.flatten.1.complete w.resolve.1.flatten.2).2.errors =
          w.resolve.1.flatten.2.errors + errorCount w.resolve.1.completionFindings := by
        rw [flatten_fst]
        exact Circuit.errors_complete_eq _ _
      have hflat := errors_flatten w.resolve.1
      have hresolve := w.forestErrors_resolve
      rw [hcomplete, errorCount_append, errorCount_append]
      omega

/-- What becomes of a netlist does not depend on what has been reported. -/
theorem unheard_finishNetlist (w : Workspace) :
    w.finishNetlist.1.unheard = w.unheard.finishNetlist.1.unheard ∧
      w.finishNetlist.2 = w.unheard.finishNetlist.2 := by
  have hflat : w.unheard.resolve.1.flatten.2 = w.resolve.1.flatten.2 := rfl
  unfold finishNetlist
  split
  · rename_i hread
    rw [if_pos (show 0 < w.unheard.forestErrors from hread)]
    exact ⟨rfl, rfl⟩
  · rename_i hread
    rw [if_neg (show ¬0 < w.unheard.forestErrors from hread)]
    split
    · rename_i hresolved
      rw [if_pos (show 0 < w.unheard.resolve.1.forestErrors from hresolved)]
      exact ⟨rfl, rfl⟩
    · rename_i hresolved
      rw [if_neg (show ¬0 < w.unheard.resolve.1.forestErrors from hresolved), hflat, flatten_fst,
        flatten_fst, complete_eq, complete_eq]
      exact ⟨rfl, rfl⟩

/-- What is reported while a netlist is read is among its diagnostics. -/
theorem errorCount_readNetlist_le (w : Workspace) (disk : Disk) (label text : String) :
    errorCount (w.readNetlist disk label text).diagnostics.findings ≤
      (w.compile disk label text).1.diagnostics.errors := by
  rw [compile_eq, Diagnostics.errors, findings_finishNetlist, errorCount_append]
  exact Nat.le_add_right _ _

/-- What has been reported does not matter for finishing a netlist. -/
theorem finishNetlist_congr {w₁ w₂ : Workspace} (h : w₁.unheard = w₂.unheard) :
    w₁.finishNetlist.1.unheard = w₂.finishNetlist.1.unheard ∧
      w₁.finishNetlist.2 = w₂.finishNetlist.2 ∧ w₁.finishFindings = w₂.finishFindings := by
  obtain ⟨hwork₁, hcircuit₁⟩ := w₁.unheard_finishNetlist
  obtain ⟨hwork₂, hcircuit₂⟩ := w₂.unheard_finishNetlist
  refine ⟨?_, ?_, ?_⟩
  · rw [hwork₁, h, ← hwork₂]
  · rw [hcircuit₁, h, ← hcircuit₂]
  · show w₁.unheard.finishFindings = w₂.unheard.finishFindings
    rw [h]

/-! ## The errors that count -/

/-- A netlist compiled with libraries that keep what is found wrong in them to themselves. -/
def compileSilently (w : Workspace) (disk : Disk) (label text : String) : Workspace × Circuit :=
  (w.readerWith disk.loader.silenced label text).settle.work.finishNetlist

/-- What is found wrong with a netlist itself, its library lines included. -/
def ownFindings (w : Workspace) (disk : Disk) (label text : String) : List Finding :=
  (w.compileSilently disk label text).1.diagnostics.findings

/-- What is found wrong in the libraries that a netlist loads. -/
def libraryFindings (w : Workspace) (disk : Disk) (label text : String) : List Finding :=
  (w.compile disk label text).1.diagnostics.findings.diff (w.ownFindings disk label text)

/-- A netlist is accepted exactly if no error is among its diagnostics. -/
def VerdictAgrees (w : Workspace) (disk : Disk) (label text : String) : Prop :=
  (w.compile disk label text).2.isOk = true ↔ (w.compile disk label text).1.diagnostics.errors = 0

variable (w : Workspace) (disk : Disk) (label text : String)

/-- The reader of a netlist and the one whose libraries are silent come to the same end, and the
second one has reported no more than the first. -/
theorem alike_readerWith_silenced :
    (w.readerWith disk.loader label text).Alike (w.readerWith disk.loader.silenced label text) ∧
      (w.readerWith disk.loader.silenced label text).findings.Sublist
        (w.readerWith disk.loader label text).findings := by
  have hstart : ∀ r : Reader, 0 < r.work.opened.length →
      r.Alike r ∧ ([] ++ r.findings).Sublist r.findings :=
    fun r hr => ⟨⟨rfl, hr⟩, List.Sublist.refl _⟩
  obtain ⟨halike, hsub⟩ := (Reader.simulation_silenced (Loading.agrees_loader disk _)
    (Loading.frames_loader disk _) (Loading.extends_loader disk _) ⟨label, .netlist⟩ []).ofText
      (hstart (Reader.initial ⟨label, .netlist⟩ "" text w.reset) (Nat.succ_pos _))
  rw [List.nil_append] at hsub
  exact ⟨halike, hsub⟩

/-- What is made of a netlist does not depend on what is reported in its libraries. -/
theorem compileSilently_eq :
    (w.compileSilently disk label text).1.unheard = (w.compile disk label text).1.unheard ∧
      (w.compileSilently disk label text).2 = (w.compile disk label text).2 := by
  have hread := (w.alike_readerWith_silenced disk label text).1.unheard
  have hsettled : (w.readerWith disk.loader.silenced label text).settle.work.unheard =
      (w.readerWith disk.loader label text).settle.work.unheard := by
    have hsettle := Reader.unheard_settle (w.readerWith disk.loader label text)
    rw [hread, ← Reader.unheard_settle] at hsettle
    exact (congrArg Reader.work hsettle).symm
  obtain ⟨hwork, hcircuit, -⟩ := finishNetlist_congr hsettled
  rw [compile_eq, readNetlist_eq]
  exact ⟨hwork, hcircuit⟩

/-- What is found wrong with a netlist itself is among its diagnostics, in their order. -/
theorem ownFindings_sublist :
    (w.ownFindings disk label text).Sublist (w.compile disk label text).1.diagnostics.findings := by
  obtain ⟨halike, hsub⟩ := w.alike_readerWith_silenced disk label text
  have hfinish : (w.readerWith disk.loader.silenced label text).settle.work.finishFindings =
      (w.readerWith disk.loader label text).settle.work.finishFindings := by
    have hsettle := Reader.unheard_settle (w.readerWith disk.loader label text)
    rw [halike.unheard, ← Reader.unheard_settle] at hsettle
    exact (finishNetlist_congr (congrArg Reader.work hsettle).symm).2.2
  rw [← (Reader.findings_settle _).1, ← (Reader.findings_settle (w.readerWith disk.loader _ _)).1]
    at hsub
  unfold ownFindings compileSilently
  rw [compile_eq, readNetlist_eq, findings_finishNetlist, findings_finishNetlist, hfinish]
  exact hsub.append (List.Sublist.refl _)

/-- If all errors that have been reported are counted, a circuit has errors exactly if some are
among the diagnostics. -/
theorem errors_finishNetlist_eq_zero_iff {r : Reader} (h : r.OfWholeNetlist)
    (hcounted : errorCount r.findings = r.errors) :
    r.settle.work.finishNetlist.2.errors = 0 ↔
      errorCount r.settle.work.finishNetlist.1.diagnostics.findings = 0 := by
  have hforest := h.forestErrors_settle
  rw [← hcounted, ← (Reader.findings_settle r).1] at hforest
  rw [errors_finishNetlist, findings_finishNetlist, errorCount_append, Nat.add_eq_zero_iff,
    Nat.add_eq_zero_iff]
  exact and_congr_left' hforest

/-- A netlist is accepted exactly if no error has been found in the netlist itself. -/
theorem isOk_compile_iff :
    (w.compile disk label text).2.isOk = true ↔ errorCount (w.ownFindings disk label text) = 0 := by
  have hframes : disk.loader.Frames disk := Loading.frames_loader disk _
  have hwhole := w.ofWholeNetlist_readerWith hframes.silenced label text
  have hcounted : 0 < _ ∧ errorCount (w.readerWith disk.loader.silenced label text).findings =
      (w.readerWith disk.loader.silenced label text).errors :=
    (Reader.keeps_counted hframes ⟨label, .netlist⟩).ofText ⟨Nat.succ_pos _, rfl⟩
  have herrors := errors_finishNetlist_eq_zero_iff hwhole hcounted.2
  rw [Circuit.isOk, beq_iff_eq, ← (w.compileSilently_eq disk label text).2]
  unfold ownFindings compileSilently
  exact herrors

/-- The errors found are those of the text itself and those of all else. -/
theorem errorCount_diff {own all : List Finding} (h : own.Sublist all) :
    errorCount all = errorCount own + errorCount (all.diff own) := by
  rw [← errorCount_append]
  exact ((List.subperm_append_diff_self_of_count_le fun f _ => h.count_le f).countP_eq _).symm

/-- A netlist is accepted exactly if no error has been found in the netlist itself, whatever has
been reported in libraries; so the verdict agrees with the diagnostics unless the netlist is
accepted and there are errors in a library that it loads. -/
theorem verdictAgrees_iff :
    (w.ownFindings disk label text).Sublist (w.compile disk label text).1.diagnostics.findings ∧
      ((w.compile disk label text).2.isOk = true ↔
        errorCount (w.ownFindings disk label text) = 0) ∧
      (w.VerdictAgrees disk label text ↔
        ((w.compile disk label text).2.isOk = true →
          errorCount (w.libraryFindings disk label text) = 0)) := by
  have hsub := w.ownFindings_sublist disk label text
  have hown := w.isOk_compile_iff disk label text
  refine ⟨hsub, hown, ?_⟩
  unfold VerdictAgrees Diagnostics.errors
  rw [errorCount_diff hsub, hown]
  unfold libraryFindings
  omega

/-- The verdict on an accepted netlist does not agree with an error that has been reported while the
netlist was read. -/
theorem not_verdictAgrees_of_errors {w : Workspace} {disk : Disk} {label text : String}
    (haccepted : (w.compile disk label text).2.errors = 0)
    (hfound : 0 < errorCount (w.readNetlist disk label text).diagnostics.findings) :
    ¬w.VerdictAgrees disk label text := by
  intro h
  have hnone := h.1 (beq_iff_eq.2 haccepted)
  have hle := w.errorCount_readNetlist_le disk label text
  omega

/-- A disk with one library in the working directory, whose sub-circuit has a resistor with a node
missing. -/
def faultyDisk : Disk :=
  ((FileTree.rooted []).write "a.lib" "\"a\"\n.subckt P a b\nR1 a\n.ends\n".toUTF8).disk

/-- A netlist that loads the library and does not use it. -/
def loadingText : String := "t\n.lib a.lib\nR1 1 0 1\n.end\n"

set_option maxRecDepth 100000 in
/-- The netlist that loads the faulty library is accepted. -/
theorem accepted_faulty : (standard.compile faultyDisk "main.cir" loadingText).2.errors = 0 := by
  refine errors_compile_eq_zero ?_ ?_ ?_
  · decide +kernel
  · decide +kernel
  · exact contains_connectedNodes_flatten "R1" groundNode (by decide +kernel) (by decide +kernel)

set_option maxRecDepth 100000 in
/-- A netlist is accepted although an error has been reported in its library. -/
theorem not_verdictAgrees_faulty :
    standard.Reachable ∧ ¬standard.VerdictAgrees faultyDisk "main.cir" loadingText :=
  ⟨reachable_standard, not_verdictAgrees_of_errors accepted_faulty (by decide +kernel)⟩

end Workspace

end FlatNet
