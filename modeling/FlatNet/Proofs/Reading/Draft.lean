import FlatNet.Proofs.Reading.Netlist

/-!
# Forests of drafts

Texts are read into a forest one after another, each under a path of its own, while the workspace
may hold any libraries.  Whatever the texts are, reading leaves drafts behind: every definition
stands at its own path, and its elements are found under their names and wait for their binding.
-/

set_option autoImplicit false

namespace FlatNet

/-- A definition as reading leaves it: its elements are found under their names and wait for their
binding. -/
structure Definition.IsDraft (d : Definition) : Prop where
  keyed : Keyed d.elements
  unbound : d.Unbound

/-- The definitions of the forest are drafts, each at its own path. -/
def Forest.Drafts (forest : Forest) : Prop :=
  ∀ (path : String) (d : Definition), forest[path]? = some d → d.path = path ∧ d.IsDraft

/-- The forest comes about by reading texts one after another.  The workspaces that they are read in
have nothing in common but the forest. -/
inductive Forest.Built : Forest → Prop
  | empty : Built ∅
  | read {w : Workspace} (hforest : Built w.forest) (hopened : w.opened = []) (disk : Disk)
      (src : Source) (path text : String) : Built (w.readSource disk src path text).1.forest

/-- A definition without elements is a draft. -/
theorem Definition.isDraft_of_elements_eq_empty {d : Definition} (h : d.elements = ∅) :
    d.IsDraft where
  keyed := by
    rw [h]
    exact Keyed.empty
  unbound := Reader.unbound_of_elements_eq_empty h

/-- A forest of drafts stays one with a draft put at its own path. -/
theorem Forest.Drafts.insert {forest : Forest} (h : Forest.Drafts forest) {d : Definition}
    (hd : d.IsDraft) : Forest.Drafts (forest.insert d.path d) := by
  intro path d' hd'
  rcases NameMap.getElem?_of_insert hd' with ⟨rfl, rfl⟩ | hold
  · exact ⟨rfl, hd⟩
  · exact h path d' hold

namespace Reader

/-- A reader that has nothing but drafts, open ones and those in the forest. -/
structure Drafts (r : Reader) : Prop where
  nonempty : 0 < r.work.opened.length
  opened : ∀ d ∈ r.work.opened, d.IsDraft
  forest : Forest.Drafts r.work.forest

/-- A mild change of a draft leaves a draft. -/
theorem isDraft_of_mild {file : String} {line : List Token} {g : Definition → Definition}
    (hg : Mild file line g) {d : Definition} (h : d.IsDraft) : (g d).IsDraft :=
  ⟨hg.keyed d h.keyed, unbound_of_mild hg h.unbound⟩

namespace Drafts

variable {r : Reader}

/-- A reader has nothing but drafts behind a change of the innermost definition, if the change
makes drafts of drafts. -/
theorem modifyCurrent (h : r.Drafts) {g : Definition → Definition}
    (hg : ∀ d : Definition, d.IsDraft → (g d).IsDraft) : (r.modifyCurrent g).Drafts where
  nonempty := by
    rw [length_opened_modifyCurrent]
    exact h.nonempty
  opened := by
    rw [modifyCurrent_eq]
    exact forall_mem_modifyHead h.opened hg
  forest := by
    rw [modifyCurrent_eq]
    exact h.forest

/-- A reader has nothing but drafts behind a finding. -/
theorem report (h : r.Drafts) (f : Finding) : (r.report f).Drafts where
  nonempty := by
    rw [length_opened_report]
    exact h.nonempty
  opened := by
    rw [report_eq]
    dsimp only
    split
    · exact forall_mem_modifyHead h.opened fun _ hd => ⟨hd.keyed, hd.unbound⟩
    · exact h.opened
  forest := by
    rw [report_eq]
    exact h.forest

/-- A reader has nothing but drafts when a definition has been closed. -/
theorem close (h : r.Drafts) (hdeep : 1 < r.work.opened.length) : r.close.Drafts := by
  cases hopened : r.work.opened with
  | nil =>
    rw [hopened] at hdeep
    exact absurd hdeep (Nat.not_lt_zero _)
  | cons d around =>
    have hall := h.opened
    rw [hopened] at hdeep hall
    obtain ⟨hd, haround⟩ := List.forall_mem_cons.1 hall
    have hnonempty : 0 < around.length := Nat.lt_of_succ_lt_succ hdeep
    cases hcontains : r.work.forest.contains d.path with
    | true =>
      have hdropped : Drafts { r with work := { r.work with opened := around } } :=
        ⟨hnonempty, haround, h.forest⟩
      rw [close_of_contains hopened hcontains]
      exact hdropped.report _
    | false =>
      have hadded : Drafts { r with work := { r.work with
          opened := around, forest := r.work.forest.insert d.path d } } :=
        ⟨hnonempty, haround, h.forest.insert hd⟩
      rw [close_of_not_contains hopened hcontains]
      exact hadded.modifyCurrent fun _ hp => ⟨hp.keyed, hp.unbound⟩

/-- Loading a library at most takes drafts out of the forest. -/
theorem loaded (h : r.Drafts) {disk : Disk} {load : Loader} (hload : load.Frames disk)
    (src : Source) (t : Token) : (r.loaded src load t).Drafts := by
  have hforest := (hload.frame src.libraryKind t.text r.work).forest
  have hopened := hload.opened src.libraryKind t.text r.work
  unfold Reader.loaded
  revert hforest hopened
  generalize load src.libraryKind t.text r.work = result
  obtain ⟨work, problem?⟩ := result
  intro hforest hopened
  have hwork : Drafts { r with work := work } := by
    change work.opened = r.work.opened at hopened
    refine ⟨?_, ?_, fun path d hd => h.forest path d (hforest path d id hd)⟩ <;> dsimp only
    · rw [hopened]
      exact h.nonempty
    · rw [hopened]
      exact h.opened
  cases problem? with
  | none => exact hwork
  | some problem => exact hwork.report _

end Drafts

/-- Whatever is done to a reader, it has nothing but drafts. -/
theorem keeps_drafts {disk : Disk} {load : Loader} (hload : load.Frames disk) (src : Source) :
    Keeps src load Drafts where
  opened := fun h => h.nonempty
  report := fun f h _ => h.report f
  change := fun h _ hg => h.modifyCurrent fun _ hd => isDraft_of_mild hg hd
  opens := fun _ _ _ h _ _ =>
    ⟨Nat.succ_pos _,
      List.forall_mem_cons.2 ⟨Definition.isDraft_of_elements_eq_empty rfl, h.opened⟩, h.forest⟩
  closes := fun h hdeep => h.close hdeep
  load := fun {_ t} h _ => h.loaded hload src t
  skipTo := fun _ h => ⟨h.nonempty, h.opened, h.forest⟩
  stop := fun h => ⟨h.nonempty, h.opened, h.forest⟩

/-- The text's own definition is a draft as well. -/
theorem Drafts.forest_settle {r : Reader} (h : r.Drafts) : Forest.Drafts r.settle.work.forest := by
  unfold settle
  split
  · exact h.forest
  · rename_i root around hopened
    refine h.forest.insert (h.opened root ?_)
    rw [hopened]
    exact List.mem_cons_self

end Reader

/-- A forest that texts have been read into consists of drafts. -/
theorem Forest.Built.drafts {forest : Forest} (h : forest.Built) : forest.Drafts := by
  induction h with
  | empty => exact fun path d hd => absurd hd (by simp)
  | @read w _ hopened disk src path text ih =>
    have hstart : (Reader.initial src path text w).Drafts := by
      refine ⟨Nat.succ_pos _, List.forall_mem_cons.2 ⟨?_, ?_⟩, ih⟩
      · exact Definition.isDraft_of_elements_eq_empty rfl
      · rw [hopened]
        exact List.forall_mem_nil _
    have hframes : disk.loader.Frames disk := Loading.frames_loader disk _
    have hend := (Reader.keeps_drafts hframes src).ofText hstart
    unfold Workspace.readSource
    rw [Reader.readSource_eq]
    exact hend.forest_settle

end FlatNet
