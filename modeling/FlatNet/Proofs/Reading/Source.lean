import FlatNet.Proofs.Reading.Line
import FlatNet.Proofs.Regular
import FlatNet.Reading.Source

/-!
# Reading keeps definitions regular

Every step of reading a source text keeps the workspace regular: lines add elements that are shaped
and wait for their binding, or change something else in the innermost definition, and errors only
raise its count.  What a line that refers to libraries does is up to the loader, which has to keep
workspaces regular itself.
-/

set_option autoImplicit false

namespace FlatNet

/-- The loader keeps workspaces regular. -/
def Loader.KeepsRegular (load : Loader) : Prop :=
  ∀ (kind : LibraryKind) (name : String) (w : Workspace), w.Regular → (load kind name w).1.Regular

namespace Reader

variable {r : Reader} {src : Source} {load : Loader}

/-- A change of the innermost definition that keeps it regular. -/
theorem regular_modifyCurrent (h : r.work.Regular) {f : Definition → Definition}
    (hf : ∀ d, d.Regular → (f d).Regular) : (r.modifyCurrent f).work.Regular := by
  unfold modifyCurrent
  split
  · exact h
  · rename_i current around hopened
    refine ⟨h.forest, ?_, h.user, h.builtin⟩
    intro d hd
    have hall := h.opened
    rw [hopened] at hall
    rcases List.mem_cons.1 hd with rfl | hd
    · exact hf current (hall current List.mem_cons_self)
    · exact hall d (List.mem_cons_of_mem current hd)

/-- A change of the innermost definition that concerns neither its elements nor its errors. -/
theorem regular_modifyCurrent_of_eq (h : r.work.Regular) {f : Definition → Definition}
    (helements : ∀ d, (f d).elements = d.elements) (herrors : ∀ d, (f d).errors = d.errors) :
    (r.modifyCurrent f).work.Regular :=
  regular_modifyCurrent h fun d hd => hd.congr (helements d) fun hzero => herrors d ▸ hzero

/-- A finding is counted and keeps the workspace regular. -/
theorem regular_report (h : r.work.Regular) (f : Finding) : (r.report f).work.Regular := by
  have hrecorded : (r.work.record f).Regular := ⟨h.forest, h.opened, h.user, h.builtin⟩
  unfold report
  split
  · -- an error has been counted now, so nothing is claimed of the elements any more
    refine regular_modifyCurrent hrecorded fun d hd => hd.congr rfl fun hzero => ?_
    exact absurd hzero (Nat.succ_ne_zero d.errors)
  · exact hrecorded

/-- Findings keep the workspace regular. -/
theorem regular_reportAll (h : r.work.Regular) (fs : List Finding) :
    (r.reportAll fs).work.Regular := by
  induction fs generalizing r with
  | nil => exact h
  | cons f rest ih => exact ih (regular_report h f)

/-- Opening a regular definition keeps the workspace regular. -/
theorem regular_push (h : r.work.Regular) {d : Definition} (hd : d.Regular) :
    (r.push d).work.Regular :=
  ⟨h.forest, List.forall_mem_cons.2 ⟨hd, h.opened⟩, h.user, h.builtin⟩

/-- The heading of a sub-circuit keeps the workspace regular: it opens an empty definition, or
none. -/
theorem regular_readSubckt (h : r.work.Regular) (command : Token) (args : List Token) :
    (r.readSubckt src command args).work.Regular := by
  unfold readSubckt
  split
  · exact regular_report h _
  · split
    · exact regular_report h _
    · split
      · exact regular_report h _
      · exact regular_reportAll (regular_push h (Definition.regular_of_elements_eq_empty rfl)) _

/-- Closing the innermost definition keeps the workspace regular: it goes to the forest as it is, or
is dropped. -/
theorem regular_close (h : r.work.Regular) : r.close.work.Regular := by
  unfold close
  split
  · exact h
  · rename_i d around hopened
    have hall := h.opened
    rw [hopened] at hall
    obtain ⟨hd, haround⟩ := List.forall_mem_cons.1 hall
    have hclosed : Workspace.Regular { r.work with opened := around } :=
      ⟨h.forest, haround, h.user, h.builtin⟩
    dsimp only
    split
    · exact regular_report hclosed _
    · refine regular_modifyCurrent_of_eq ?_ (fun _ => rfl) fun _ => rfl
      exact ⟨h.forest.insert hd d.path, haround, h.user, h.builtin⟩

/-- The end of a sub-circuit keeps the workspace regular. -/
theorem regular_readEnds (h : r.work.Regular) (command : Token) :
    (r.readEnds src command).work.Regular := by
  unfold readEnds
  split
  · exact regular_report h _
  · exact regular_close h

/-- A line of parameters keeps the workspace regular: it adds no element. -/
theorem regular_readParam (h : r.work.Regular) (command : Token) (args : List Token) :
    (r.readParam src command args).work.Regular := by
  unfold readParam
  split
  · exact regular_report h _
  · refine regular_reportAll (regular_modifyCurrent_of_eq h ?_ ?_) _
    · exact fun _ => rfl
    · exact fun _ => rfl

/-- A model card keeps the workspace regular: it adds no element. -/
theorem regular_readModel (h : r.work.Regular) (command : Token) (args : List Token) :
    (r.readModel src command args).work.Regular := by
  unfold readModel
  split
  · exact regular_report h _
  · have hreported := fun fs => regular_reportAll h fs
    dsimp only
    split
    · exact regular_report (hreported _) _
    · exact regular_modifyCurrent_of_eq (hreported _) (fun _ => rfl) fun _ => rfl

/-- The name of a library keeps the workspace regular if the loader does. -/
theorem regular_readLibraryName (hload : load.KeepsRegular) (h : r.work.Regular) (t : Token) :
    (readLibraryName src load r t).work.Regular := by
  have hnoted := regular_modifyCurrent_of_eq
    (f := fun d => { d with libraries := d.libraries ++ [t.text] }) h (fun _ => rfl) fun _ => rfl
  have hloaded := hload src.libraryKind t.text _ hnoted
  unfold readLibraryName
  split
  · exact regular_report h _
  · dsimp only
    split
    · rename_i work hwork
      rwa [hwork] at hloaded
    · rename_i work problem hwork
      rw [hwork] at hloaded
      exact regular_report hloaded _

/-- A row of steps that each keep the workspace regular. -/
theorem regular_foldl {step : Reader → Token → Reader}
    (hstep : ∀ (r : Reader) (t : Token), r.work.Regular → (step r t).work.Regular)
    (ts : List Token) (h : r.work.Regular) : (ts.foldl step r).work.Regular := by
  induction ts generalizing r with
  | nil => exact h
  | cons t rest ih => exact ih (hstep r t h)

/-- A line that names libraries keeps the workspace regular if the loader does. -/
theorem regular_readLibraries (hload : load.KeepsRegular) (h : r.work.Regular) (command : Token)
    (args : List Token) : (r.readLibraries src load command args).work.Regular := by
  unfold readLibraries
  split
  · exact regular_report h _
  · exact regular_foldl (fun _ t hr => regular_readLibraryName hload hr t) args h

/-- A declaration adds no element. -/
theorem elements_declare (keyword : String) (declaration : Declaration) (d : Definition) :
    (declare keyword declaration d).elements = d.elements := by
  unfold declare
  split
  · rfl
  · split <;> rfl

/-- A declaration is no error. -/
theorem errors_declare (keyword : String) (declaration : Declaration) (d : Definition) :
    (declare keyword declaration d).errors = d.errors := by
  unfold declare
  split
  · rfl
  · split <;> rfl

/-- Declarations keep the workspace regular. -/
theorem regular_readDeclarations (h : r.work.Regular) (keyword : String) (command : Token)
    (args : List Token) : (r.readDeclarations src keyword command args).work.Regular := by
  unfold readDeclarations
  split
  · exact regular_report h _
  · refine regular_foldl (fun r t hr => ?_) args h
    unfold readDeclaration
    split
    · exact regular_modifyCurrent_of_eq hr (elements_declare keyword _) (errors_declare keyword _)
    · exact regular_report hr _

/-- Every command keeps the workspace regular. -/
theorem regular_readCommand (hload : load.KeepsRegular) (h : r.work.Regular) (command : Token)
    (args : List Token) : (r.readCommand src load command args).work.Regular := by
  unfold readCommand
  split
  · exact regular_readSubckt h command args
  · exact regular_readEnds h command
  · exact regular_readParam h command args
  · exact regular_readModel h command args
  · exact regular_readLibraries hload h command args
  · exact regular_readLibraries hload h command args
  · exact regular_readLibraries hload h command args
  · exact regular_readDeclarations h _ command args
  · exact regular_readDeclarations h _ command args
  · exact regular_readDeclarations h _ command args
  · exact h
  · exact regular_report h _

/-- The line of an element keeps the workspace regular: what it adds is shaped and waits for its
binding. -/
theorem regular_readElement (h : r.work.Regular) (head : Token) (tokens : List Token) :
    (r.readElement src head tokens).work.Regular := by
  unfold readElement
  split
  · exact regular_report h _
  · split
    · exact regular_report h _
    · rename_i line hline
      have hreads := Line.reads_readElement hline
      dsimp only
      -- an element whose name is taken is dropped
      split
      · exact regular_report (regular_reportAll h _) _
      · refine regular_modifyCurrent (regular_reportAll h _) fun d hd => ?_
        rw [← hreads.refDes]
        exact hd.insert (hreads.shaped.sound hreads.unbound)

/-- A line while a rejected sub-circuit is skipped. -/
theorem work_skipLine (first : Token) : (r.skipLine first).work = r.work := by
  unfold skipLine
  split
  · split <;> rfl
  · rfl

/-- Every line keeps the workspace regular. -/
theorem regular_readLine (hload : load.KeepsRegular) (h : r.work.Regular) (line : List Token) :
    (r.readLine src load line).work.Regular := by
  unfold readLine
  split
  · exact h
  · split
    · rw [work_skipLine]
      exact h
    · split
      · exact regular_readCommand hload h _ _
      · split
        · exact regular_readElement h _ _
        · exact regular_report h _

/-- The title keeps the workspace regular. -/
theorem regular_readTitle (hload : load.KeepsRegular) (h : r.work.Regular) (line : List Token) :
    (r.readTitle src load line).work.Regular := by
  unfold readTitle
  split
  · exact regular_report h _
  · split
    · exact regular_modifyCurrent_of_eq h (fun _ => rfl) fun _ => rfl
    · exact regular_readLine hload (regular_report h _) _

/-- The lines of a text keep the workspace regular, by induction on the lines. -/
theorem regular_readLines (hload : load.KeepsRegular) (h : r.work.Regular)
    (lines : List (List Token)) : (readLines src load r lines).work.Regular := by
  induction lines generalizing r with
  | nil => exact h
  | cons line rest ih =>
    unfold readLines
    split
    · exact h
    · exact ih (regular_readLine hload h line)

/-- Closing what is left open keeps the workspace regular. -/
theorem regular_closeLeftOver (h : r.work.Regular) (n : Nat) :
    (closeLeftOver n r).work.Regular := by
  induction n generalizing r with
  | zero => exact h
  | succ n ih => exact ih (regular_close (regular_report h _))

/-- The end of a text keeps the workspace regular. -/
theorem regular_finish (h : r.work.Regular) : (r.finish src).work.Regular := by
  have hclosed := regular_closeLeftOver h (r.work.opened.length - 1)
  unfold finish
  dsimp only
  generalize closeLeftOver (r.work.opened.length - 1) r = closed at hclosed ⊢
  have hended : (if (!closed.ended && decide (src.kind = .netlist)) = true then
      closed.report (.usual .missingEnd none) else closed).work.Regular := by
    split
    · exact regular_report hclosed _
    · exact hclosed
  split
  · exact hended
  · rename_i root around hopened
    -- the text's own definition is the last one that is open
    have hall := hended.opened
    rw [hopened] at hall
    obtain ⟨hroot, haround⟩ := List.forall_mem_cons.1 hall
    exact ⟨hended.forest.insert hroot root.path, haround, hended.user, hended.builtin⟩

end Reader

/-- Reading a source text keeps a workspace regular. -/
theorem regular_readSource {load : Loader} (hload : load.KeepsRegular) {w : Workspace}
    (h : w.Regular) (src : Source) (path text : String) :
    (readSource load src path text w).1.Regular := by
  unfold readSource
  dsimp only
  refine Reader.regular_finish ?_
  have hstart : Workspace.Regular
      { w with
        diagnostics := w.diagnostics.addSource src.file text
        opened := Definition.blank (src.rootName path) path "" (some ⟨src.file, 1, 1⟩) ::
          w.opened } :=
    ⟨h.forest, List.forall_mem_cons.2 ⟨Definition.regular_of_elements_eq_empty rfl, h.opened⟩,
      h.user, h.builtin⟩
  have hfaults := fun fs =>
    Reader.regular_reportAll (r := ⟨_, 0, false, 0⟩) hstart fs
  split
  · exact Reader.regular_report (hfaults _) _
  · exact Reader.regular_readLines hload (Reader.regular_readTitle hload (hfaults _) _) _

end FlatNet
