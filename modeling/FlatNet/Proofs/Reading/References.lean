import FlatNet.Proofs.Reading.Run
import FlatNet.Reading.References

/-!
# Texts that refer to no libraries

A line without the name of a library loads nothing, so what such a line does, and what becomes of a
text that consists of them, is the same with every loader.
-/

set_option autoImplicit false

namespace FlatNet.Reader

/-! ## Actions that load nothing -/

section Actions

variable {src : Source} {v : View}

/-- Findings load nothing. -/
theorem load_not_mem_map_report (fs : List Finding) (t : Token) :
    Action.load t ∉ fs.map Action.report := by
  intro h
  obtain ⟨f, -, hf⟩ := List.mem_map.1 h
  exact Action.noConfusion hf

/-- The heading of a sub-circuit loads nothing. -/
theorem load_not_mem_subcktActions (command : Token) (args : List Token) (t : Token) :
    Action.load t ∉ subcktActions src v command args := by
  unfold subcktActions rejection
  split
  · simp
  · split
    · simp
    · split
      · simp
      · rw [List.mem_cons, not_or]
        exact ⟨nofun, load_not_mem_map_report _ t⟩

/-- Parameters load nothing. -/
theorem load_not_mem_paramActions (command : Token) (args : List Token) (t : Token) :
    Action.load t ∉ paramActions src v command args := by
  unfold paramActions
  split
  · simp
  · rw [List.mem_cons, not_or]
    exact ⟨nofun, load_not_mem_map_report _ t⟩

/-- A model card loads nothing. -/
theorem load_not_mem_modelActions (command : Token) (args : List Token) (t : Token) :
    Action.load t ∉ modelActions src v command args := by
  unfold modelActions
  split
  · simp
  · rw [List.mem_append, not_or]
    refine ⟨load_not_mem_map_report _ t, ?_⟩
    split <;> simp

/-- Declarations load nothing. -/
theorem load_not_mem_declarationsActions (command : Token) (args : List Token) (keyword : String)
    (t : Token) : Action.load t ∉ declarationsActions src command args keyword := by
  unfold declarationsActions
  split
  · simp
  · intro h
    obtain ⟨name, -, hname⟩ := List.mem_map.1 h
    unfold declarationAction at hname
    split at hname <;> exact Action.noConfusion hname

/-- The line of an element loads nothing. -/
theorem load_not_mem_elementActions (head : Token) (tokens : List Token) (t : Token) :
    Action.load t ∉ elementActions src v head tokens := by
  unfold elementActions
  split
  · simp
  · split
    · simp
    · rw [List.mem_append, not_or]
      refine ⟨load_not_mem_map_report _ t, ?_⟩
      split <;> simp

/-- A command that refers to libraries loads only what its line names. -/
theorem mem_of_load_mem_librariesActions {command t : Token} {args : List Token}
    (h : Action.load t ∈ librariesActions src command args) :
    t ∈ args ∧ t.isLibraryName = true := by
  unfold librariesActions at h
  split at h
  · simp at h
  · obtain ⟨name, hmem, hname⟩ := List.mem_flatMap.1 h
    unfold libraryNameActions at hname
    split at hname
    · simp at hname
    · rename_i hlibrary
      have heq : t = name := by simpa using hname
      rw [heq]
      exact ⟨hmem, by simpa using hlibrary⟩

/-- Three commands refer to libraries. -/
theorem isLibraryCommand_iff {command : Token} (h : command.isCommand = true) :
    isLibraryCommand command = true ↔
      command.text = ".lib" ∨ command.text = ".include" ∨ command.text = ".inc" := by
  unfold isLibraryCommand
  simp [h, or_assoc]

/-- A line without the name of a library loads nothing. -/
theorem load_not_mem_actions {line : List Token} (h : lineReferences line = []) (t : Token) :
    Action.load t ∉ actions src v line := by
  unfold actions
  split
  · exact List.not_mem_nil
  · rename_i first rest
    have hlibraries : isLibraryCommand first = true →
        Action.load t ∉ librariesActions src first rest := by
      intro hcommand hload
      obtain ⟨hmem, hname⟩ := mem_of_load_mem_librariesActions hload
      unfold lineReferences at h
      dsimp only at h
      rw [if_pos hcommand, List.map_eq_nil_iff, List.filter_eq_nil_iff] at h
      exact h t hmem hname
    split
    · unfold skipActions
      split
      · split <;> simp
      · exact List.not_mem_nil
    · split
      · rename_i hcommand
        rw [isLibraryCommand_iff hcommand] at hlibraries
        unfold commandActions
        split <;> rename_i htext
        · exact load_not_mem_subcktActions first rest t
        · unfold endsActions
          split <;> simp
        · exact load_not_mem_paramActions first rest t
        · exact load_not_mem_modelActions first rest t
        · exact hlibraries (.inl htext)
        · exact hlibraries (.inr (.inl htext))
        · exact hlibraries (.inr (.inr htext))
        · exact load_not_mem_declarationsActions first rest _ t
        · exact load_not_mem_declarationsActions first rest _ t
        · exact load_not_mem_declarationsActions first rest _ t
        · simp
        · simp
      · split
        · exact load_not_mem_elementActions first rest t
        · simp

/-- What reports keep, and changes of the innermost definition, is kept by actions that leave the
nesting alone and load nothing. -/
theorem performAll_of_inner (load : Loader) {P : Reader → Prop} {line : List Token}
    (hreport : ∀ {r : Reader} (f : Finding), P r → P (r.report f))
    (hchange : ∀ {r : Reader} {g : Definition → Definition}, Mild src.file line g → P r →
      P (r.modifyCurrent g))
    {as : List Action} (has : ∀ a ∈ as, a.Inner src.file line)
    (hload : ∀ t, Action.load t ∉ as) {r : Reader} (h : P r) : P (r.performAll src load as) := by
  induction as generalizing r with
  | nil => exact h
  | cons a rest ih =>
    obtain ⟨ha, hrest⟩ := List.forall_mem_cons.1 has
    refine ih hrest (fun t ht => hload t (List.mem_cons_of_mem a ht)) ?_
    cases ha with
    | report _ => exact hreport _ h
    | change hg => exact hchange hg h
    | load _ => exact absurd List.mem_cons_self (hload _)

end Actions

/-! ## Every loader does the same -/

section Loaders

variable {src : Source} (load₁ load₂ : Loader) (r : Reader)

/-- Actions that load nothing are the same with every loader. -/
theorem performAll_congr {as : List Action} (h : ∀ t, Action.load t ∉ as) :
    r.performAll src load₁ as = r.performAll src load₂ as := by
  induction as generalizing r with
  | nil => rfl
  | cons a rest ih =>
    have ha : r.perform src load₁ a = r.perform src load₂ a := by
      cases a with
      | load t => exact absurd List.mem_cons_self (h t)
      | report _ | change _ | opens _ | closes | skipTo _ | stop => rfl
    rw [performAll_cons, performAll_cons, ha]
    exact ih _ fun t ht => h t (List.mem_cons_of_mem a ht)

/-- What a line does that names no library is the same with every loader. -/
theorem readLine_congr {line : List Token} (h : lineReferences line = []) :
    r.readLine src load₁ line = r.readLine src load₂ line := by
  rw [readLine_eq, readLine_eq]
  exact performAll_congr load₁ load₂ r (load_not_mem_actions h)

/-- A title that names no library is read the same with every loader. -/
theorem readTitle_congr {line : List Token} (h : lineReferences line = []) :
    r.readTitle src load₁ line = r.readTitle src load₂ line := by
  unfold readTitle
  split
  · rfl
  · split
    · rfl
    · exact readLine_congr load₁ load₂ _ h

/-- Lines that name no library are read the same with every loader. -/
theorem readLines_congr {lines : List (List Token)}
    (h : ∀ line ∈ lines, lineReferences line = []) :
    r.readLines src load₁ lines = r.readLines src load₂ lines := by
  induction lines generalizing r with
  | nil => rfl
  | cons line rest ih =>
    obtain ⟨hline, hrest⟩ := List.forall_mem_cons.1 h
    unfold readLines
    rw [readLine_congr load₁ load₂ r hline, ih _ hrest]

/-- A text that refers to no libraries is read in the same way with every loader. -/
theorem ofText_congr (path : String) {text : String} (w : Workspace)
    (h : libraryReferences text = []) :
    ofText load₁ src path text w = ofText load₂ src path text w := by
  have hlines : ∀ line ∈ (tokenize text).lines, lineReferences line = [] :=
    List.flatMap_eq_nil_iff.1 h
  unfold ofText readText readAll
  generalize (initial src path text w).reportAll _ = r
  cases hcut : (tokenize text).lines with
  | nil => rfl
  | cons title rest =>
    rw [hcut] at hlines
    obtain ⟨htitle, hrest⟩ := List.forall_mem_cons.1 hlines
    dsimp only
    rw [readTitle_congr load₁ load₂ r htitle, readLines_congr load₁ load₂ _ hrest]

end Loaders

end FlatNet.Reader
