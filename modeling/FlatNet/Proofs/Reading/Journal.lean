import FlatNet.Proofs.Reading.Run

/-!
# What is noted while a text is read

A journal says what is to be noted when a library is loaded.  The notes of a text are those of the
libraries that its lines load, in the order in which they are loaded; the reader itself is the same
with or without them.  `Noting.ofText` is the induction on a run for statements about the reader and
the notes made so far.  Settings, libraries and the files compiled so far make up the stock of a
workspace; nothing but loading changes it.
-/

set_option autoImplicit false

namespace FlatNet

/-- What is noted when the library of a name is loaded into a workspace. -/
abbrev Journal (α : Type) : Type := LibraryKind → String → Workspace → List α

/-- What of a workspace is in use by all texts. -/
structure Stock where
  settings : Settings
  user : Library
  builtin : Library
  compiled : NameSet

/-- The stock of a workspace. -/
def Workspace.stock (w : Workspace) : Stock := ⟨w.settings, w.user, w.builtin, w.compiled⟩

namespace Reader

variable {α : Type}

/-! ## The notes of a text -/

section Notes

variable (src : Source) (load : Loader) (journal : Journal α)

/-- The notes of an action: those of the library that it loads, if it loads one. -/
def notesOfAction (r : Reader) : Action → List α
  | .load t => journal src.libraryKind t.text r.work
  | _ => []

/-- The notes of a row of actions. -/
def notesOfActions : Reader → List Action → List α
  | _, [] => []
  | r, a :: as => r.notesOfAction src journal a ++ notesOfActions (r.perform src load a) as

/-- The notes of a line. -/
def notesOfLine (r : Reader) (line : List Token) : List α :=
  r.notesOfActions src load journal (actions src r.view line)

/-- The notes of the title line. -/
def notesOfTitle (r : Reader) (line : List Token) : List α :=
  match line with
  | [] => []
  | first :: _ =>
    match first.kind with
    | .quotedString => []
    | _ =>
      (r.report (Line.findingAt src.file first .missingTitle)).notesOfLine src load journal line

/-- The notes of the lines behind the title, up to the end of the text. -/
def notesOfLines : Reader → List (List Token) → List α
  | _, [] => []
  | r, line :: rest =>
    if r.ended then []
    else r.notesOfLine src load journal line ++ notesOfLines (r.readLine src load line) rest

/-- The notes of the logical lines. -/
def notesOfAll (r : Reader) : List (List Token) → List α
  | [] => []
  | title :: rest =>
    r.notesOfTitle src load journal title ++
      notesOfLines src load journal (r.readTitle src load title) rest

/-- The notes of a text that is read into a workspace. -/
def notesOfText (path text : String) (w : Workspace) : List α :=
  ((initial src path text w).reportAll (faults src.file text)).notesOfAll src load journal
    (tokenize text).lines

end Notes

/-! ## Statements about reader and notes -/

/-- Whatever is done to a reader keeps the property of the reader and its notes. -/
structure Noting (src : Source) (load : Loader) (journal : Journal α)
    (P : List α → Reader → Prop) : Prop where
  opened : ∀ {notes r}, P notes r → 0 < r.work.opened.length
  report : ∀ {notes r} (f : Finding), P notes r → f.problem.problemClass ≠ .reference →
    P notes (r.report f)
  change : ∀ {notes r} {g : Definition → Definition} {line : List Token}, P notes r →
    (∀ t ∈ line, t.Named) → Mild src.file line g → P notes (r.modifyCurrent g)
  opens : ∀ {notes r} (first : Token) {name : Token} (heading : Line.Heading), P notes r →
    name.isIdentifier = true → name.Named →
    P notes (r.push (opening src r.view first name heading))
  closes : ∀ {notes r}, P notes r → 1 < r.work.opened.length → P notes r.close
  load : ∀ {notes r} {t : Token}, P notes r → t.Named →
    P (notes ++ journal src.libraryKind t.text r.work) (r.loaded src load t)
  skipTo : ∀ {notes r} (depth : Nat), P notes r → P notes { r with skipDepth := depth }
  stop : ∀ {notes r}, P notes r → P notes r.readEnd

/-! ## The stock -/

section Stock

variable (r : Reader)

/-- A change of the innermost definition keeps the stock. -/
@[simp] theorem stock_modifyCurrent (g : Definition → Definition) :
    (r.modifyCurrent g).work.stock = r.work.stock := by
  rw [modifyCurrent_eq]
  rfl

/-- A finding keeps the stock. -/
@[simp] theorem stock_report (f : Finding) : (r.report f).work.stock = r.work.stock := by
  rw [report_eq]
  rfl

/-- Opening a definition keeps the stock. -/
@[simp] theorem stock_push (d : Definition) : (r.push d).work.stock = r.work.stock := rfl

/-- The end command keeps the stock. -/
@[simp] theorem stock_readEnd : r.readEnd.work.stock = r.work.stock := rfl

/-- Closing a definition keeps the stock. -/
@[simp] theorem stock_close : r.close.work.stock = r.work.stock := by
  cases hopened : r.work.opened with
  | nil =>
    unfold close
    rw [hopened]
  | cons d around =>
    cases hcontains : r.work.forest.contains d.path with
    | true =>
      rw [close_of_contains hopened hcontains, stock_report]
      rfl
    | false =>
      rw [close_of_not_contains hopened hcontains, stock_modifyCurrent]
      rfl

/-- Settling a text keeps the stock. -/
@[simp] theorem stock_settle : r.settle.work.stock = r.work.stock := by
  unfold settle
  split <;> rfl

variable {r}

/-- Of what is done for a line that names a library, only loading changes the stock. -/
theorem stock_loaded (src : Source) (load : Loader) (t : Token) :
    (r.loaded src load t).work.stock = (load src.libraryKind t.text r.work).1.stock := by
  unfold loaded
  generalize load src.libraryKind t.text r.work = result
  obtain ⟨work, problem?⟩ := result
  cases problem? with
  | none => rfl
  | some problem => exact stock_report _ _

/-- Loading a library opens and closes nothing of the text, if the loader does not. -/
theorem length_opened_loaded {load : Loader}
    (hload : ∀ kind name w, (load kind name w).1.opened = w.opened) (src : Source) (t : Token) :
    (r.loaded src load t).work.opened.length = r.work.opened.length := by
  have hopened := hload src.libraryKind t.text r.work
  revert hopened
  unfold loaded
  generalize load src.libraryKind t.text r.work = result
  obtain ⟨work, problem?⟩ := result
  intro hopened
  cases problem? with
  | none => exact congrArg List.length hopened
  | some problem =>
    rw [length_opened_report]
    exact congrArg List.length hopened

end Stock

/-- A statement about the notes and the stock is kept if loading keeps it. -/
theorem noting_stock {src : Source} {load : Loader} {journal : Journal α}
    (hload : ∀ kind name w, (load kind name w).1.opened = w.opened)
    {P : List α → Stock → Prop}
    (hstep : ∀ notes kind name w, P notes w.stock →
      P (notes ++ journal kind name w) (load kind name w).1.stock) :
    Noting src load journal fun notes r => 0 < r.work.opened.length ∧ P notes r.work.stock where
  opened := fun h => h.1
  report := by
    intro notes r f h _
    rwa [length_opened_report, stock_report]
  change := by
    intro notes r g line h _ _
    rwa [length_opened_modifyCurrent, stock_modifyCurrent]
  opens := fun _ _ _ h _ _ => ⟨Nat.succ_pos _, h.2⟩
  closes := by
    intro notes r h hdeep
    rw [length_opened_close, stock_close]
    exact ⟨by omega, h.2⟩
  load := by
    intro notes r t h _
    rw [length_opened_loaded hload, stock_loaded]
    exact ⟨h.1, hstep notes _ _ _ h.2⟩
  skipTo := fun _ h => h
  stop := fun h => h

/-! ## The run -/

/-- What is kept whatever the notes are is kept. -/
theorem Noting.keeps {src : Source} {load : Loader} {journal : Journal α} {P : Reader → Prop}
    (h : Noting src load journal fun _ r => P r) : Keeps src load P := by
  obtain ⟨opened, report, change, opens, closes, load, skipTo, stop⟩ := h
  exact ⟨@opened [], @report [], @change [], @opens [], @closes [], @load [], @skipTo [], @stop []⟩

/-- A statement about the stock is kept if loading keeps it. -/
theorem keeps_stock {src : Source} {load : Loader}
    (hload : ∀ kind name w, (load kind name w).1.opened = w.opened) {P : Stock → Prop}
    (hstep : ∀ kind name w, P w.stock → P (load kind name w).1.stock) :
    Keeps src load fun r => 0 < r.work.opened.length ∧ P r.work.stock := by
  have hnoting : Noting src load (fun _ _ _ => ([] : List Unit))
      fun _ r => 0 < r.work.opened.length ∧ P r.work.stock :=
    noting_stock (P := fun _ s => P s) hload fun _ kind name w h => hstep kind name w h
  exact hnoting.keeps

/-- A loader that does the same while the property holds keeps readers equal. -/
theorem Keeps.simulation_of_agree {src : Source} {load₁ load₂ : Loader} {P : Reader → Prop}
    (h : Keeps src load₂ P)
    (hagree : ∀ r, P r → ∀ kind name, load₁ kind name r.work = load₂ kind name r.work) :
    Simulation src load₁ load₂ fun r₁ r₂ => r₁ = r₂ ∧ P r₁ where
  view := h.simulation.view
  ended := h.simulation.ended
  opened := h.simulation.opened
  report := h.simulation.report
  change := h.simulation.change
  opens := h.simulation.opens
  closes := h.simulation.closes
  load := by
    rintro r _ t ⟨rfl, hr⟩ ht
    have heq : r.loaded src load₁ t = r.loaded src load₂ t := by
      unfold loaded
      rw [hagree r hr]
    rw [heq]
    exact ⟨rfl, h.load hr ht⟩
  skipTo := h.simulation.skipTo
  stop := h.simulation.stop

namespace Noting

variable {src : Source} {load : Loader} {journal : Journal α} {P : List α → Reader → Prop}
  {notes : List α} {r : Reader}

/-- What is noted so far is kept by findings. -/
theorem reportAll (h : Noting src load journal P) (hr : P notes r) (fs : List Finding)
    (hfs : ∀ f ∈ fs, f.problem.problemClass ≠ .reference) : P notes (r.reportAll fs) := by
  induction fs generalizing r with
  | nil => exact hr
  | cons f rest ih =>
    obtain ⟨hf, hrest⟩ := List.forall_mem_cons.1 hfs
    exact ih (h.report f hr hf) hrest

/-- Where nothing is noted, the notes stay as they are. -/
theorem of_notes_eq_nil {made : List α} (hr : P notes r) (hmade : made = []) :
    P (notes ++ made) r := by
  rw [hmade, List.append_nil]
  exact hr

/-- Findings load nothing. -/
theorem notesOfActions_map_report (r : Reader) (fs : List Finding) :
    r.notesOfActions src load journal (fs.map .report) = [] := by
  induction fs generalizing r with
  | nil => rfl
  | cons f rest ih => exact ih (r.report f)

/-- The property holds of the reader and its notes behind actions that leave the nesting alone. -/
theorem performAll_inner (h : Noting src load journal P) (hr : P notes r) {line : List Token}
    (hline : ∀ t ∈ line, t.Named) (as : List Action) (has : ∀ a ∈ as, a.Inner src.file line) :
    P (notes ++ r.notesOfActions src load journal as) (r.performAll src load as) := by
  induction as generalizing notes r with
  | nil => exact of_notes_eq_nil hr rfl
  | cons a rest ih =>
    obtain ⟨ha, hrest⟩ := List.forall_mem_cons.1 has
    rw [notesOfActions, ← List.append_assoc, performAll_cons]
    apply ih _ hrest
    cases ha with
    | report hf => exact of_notes_eq_nil (h.report _ hr (problemClass_of_isAt hf)) rfl
    | change hg => exact of_notes_eq_nil (h.change hr hline hg) rfl
    | load ht => exact h.load hr (hline _ ht)

/-- The property holds of the reader and its notes behind a line. -/
theorem readLine (h : Noting src load journal P) (hr : P notes r) {line : List Token}
    (hline : ∀ t ∈ line, t.Named) :
    P (notes ++ r.notesOfLine src load journal line) (r.readLine src load line) := by
  rw [readLine_eq, notesOfLine]
  have hshape := lineShape_actions src r.view line
  revert hshape
  generalize actions src r.view line = as
  intro hshape
  cases hshape with
  | blank => exact of_notes_eq_nil hr rfl
  | inner _ _ has => exact h.performAll_inner hr hline as has
  | @opens first name rest _ _ hname _ =>
    have hnamed : name.Named := hline name (List.mem_cons_of_mem _ List.mem_cons_self)
    rw [performAll_cons, performAll_map_report]
    refine of_notes_eq_nil (h.reportAll (h.opens first _ hr hname hnamed) _ ?_) ?_
    · exact fun f hf => problemClass_of_isAt (Line.isAt_readHeading f hf)
    · exact notesOfActions_map_report _ _
  | rejects _ _ hf =>
    exact of_notes_eq_nil (h.skipTo 1 (h.report _ hr (problemClass_of_isAt hf))) rfl
  | closes _ _ hdeep =>
    rw [← length_opened_eq_view] at hdeep
    exact of_notes_eq_nil (h.closes hr hdeep) rfl
  | unmatched _ _ _ hf => exact of_notes_eq_nil (h.report _ hr (problemClass_of_isAt hf)) rfl
  | stops _ => exact of_notes_eq_nil (h.stop hr) rfl
  | skips _ _ => exact of_notes_eq_nil hr rfl
  | deeper _ _ => exact of_notes_eq_nil (h.skipTo _ hr) rfl
  | shallower _ _ => exact of_notes_eq_nil (h.skipTo _ hr) rfl

/-- The property holds of the reader and its notes behind the title. -/
theorem readTitle (h : Noting src load journal P) (hr : P notes r) {line : List Token}
    (hline : ∀ t ∈ line, t.Named) :
    P (notes ++ r.notesOfTitle src load journal line) (r.readTitle src load line) := by
  have hmissing : ∀ origin,
      (Finding.usual .missingTitle origin).problem.problemClass ≠ .reference :=
    problemClass_ne_reference rfl
  cases line with
  | nil => exact of_notes_eq_nil (h.report (.usual .missingTitle none) hr (hmissing _)) rfl
  | cons first rest =>
    unfold Reader.readTitle notesOfTitle
    dsimp only
    generalize first.kind = kind
    cases kind with
    | quotedString =>
      exact of_notes_eq_nil (h.change hr hline (Simulation.mild_title first.text)) rfl
    | _ => exact h.readLine (h.report _ hr (hmissing _)) hline

/-- The property holds of the reader and its notes behind the lines of a text, by induction on
them. -/
theorem readLines (h : Noting src load journal P) (hr : P notes r) {lines : List (List Token)}
    (hlines : ∀ line ∈ lines, ∀ t ∈ line, t.Named) :
    P (notes ++ r.notesOfLines src load journal lines) (r.readLines src load lines) := by
  induction lines generalizing notes r with
  | nil => exact of_notes_eq_nil hr rfl
  | cons line rest ih =>
    obtain ⟨hline, hrest⟩ := List.forall_mem_cons.1 hlines
    unfold Reader.readLines notesOfLines
    split
    · exact of_notes_eq_nil hr rfl
    · rw [← List.append_assoc]
      exact ih (h.readLine hr hline) hrest

/-- The property holds of the reader and its notes when all lines have been read. -/
theorem readAll (h : Noting src load journal P) (hr : P notes r) {lines : List (List Token)}
    (hlines : ∀ line ∈ lines, ∀ t ∈ line, t.Named) :
    P (notes ++ r.notesOfAll src load journal lines) (r.readAll src load lines) := by
  cases lines with
  | nil =>
    have hclass : Problem.missingTitle.problemClass = .structural := rfl
    have hmissing := problemClass_ne_reference hclass none
    exact of_notes_eq_nil (h.report (.usual .missingTitle none) hr hmissing) rfl
  | cons title rest =>
    obtain ⟨htitle, hrest⟩ := List.forall_mem_cons.1 hlines
    rw [notesOfAll, ← List.append_assoc]
    exact h.readLines (h.readTitle hr htitle) hrest

/-- Closing what is left over notes nothing. -/
theorem closeLeftOver (h : Noting src load journal P) (hr : P notes r) (n : Nat)
    (hn : n < r.work.opened.length) : P notes (r.closeLeftOver n) := by
  induction n generalizing r with
  | zero => exact hr
  | succ n ih =>
    unfold Reader.closeLeftOver
    have hclass : (Problem.unterminatedSubcircuit r.current.name).problemClass = .structural := rfl
    have hreported := h.report _ hr (problemClass_ne_reference hclass r.current.origin)
    have hlength := length_opened_report r
      (.usual (.unterminatedSubcircuit r.current.name) r.current.origin)
    apply ih (h.closes hreported (by omega))
    rw [length_opened_close]
    omega

/-- The end of the lines notes nothing. -/
theorem closeAll (h : Noting src load journal P) (hr : P notes r) : P notes (r.closeAll src) := by
  have hopened := h.opened hr
  have hclosed := h.closeLeftOver hr (r.work.opened.length - 1) (by omega)
  unfold Reader.closeAll
  dsimp only
  split
  · exact h.report _ hclosed (problemClass_ne_reference rfl _)
  · exact hclosed

/-- What holds at the beginning of a text without notes holds at its end with its notes. -/
theorem ofText (h : Noting src load journal P) {path text : String} {w : Workspace}
    (hr : P [] (initial src path text w)) :
    P (notesOfText src load journal path text w) (Reader.ofText load src path text w) := by
  have hfaults : ∀ f ∈ faults src.file text, f.problem.problemClass ≠ .reference := by
    intro f hf
    obtain ⟨fault, hfault, rfl⟩ := List.mem_map.1 hf
    exact Tokenized.problemClass_of_mem_faults fault hfault
  exact h.closeAll (h.readAll (h.reportAll hr _ hfaults) Tokenized.named_of_mem_lines)

end Noting

/-! ## The loads of a text -/

/-- A library that is to be loaded into a workspace. -/
structure Load where
  kind : LibraryKind
  name : String
  work : Workspace

/-- The loads that the lines of a text ask for, in order. -/
def loadsOfText (src : Source) (load : Loader) (path text : String) (w : Workspace) : List Load :=
  notesOfText src load (fun kind name work => [⟨kind, name, work⟩]) path text w

/-- What is kept while a text is read holds when its lines ask for a library. -/
theorem Keeps.of_mem_loadsOfText {src : Source} {load : Loader} {P : Reader → Prop}
    (h : Keeps src load P) {path text : String} {w : Workspace} (hr : P (initial src path text w))
    {l : Load} (hl : l ∈ loadsOfText src load path text w) : ∃ r, P r ∧ r.work = l.work := by
  have hnoting : Noting src load (fun kind name work => [(⟨kind, name, work⟩ : Load)])
      fun loads r => P r ∧ ∀ l ∈ loads, ∃ r, P r ∧ r.work = l.work := by
    refine ⟨fun hr => h.opened hr.1, fun f hr hf => ⟨h.report f hr.1 hf, hr.2⟩,
      fun hr hline hg => ⟨h.change hr.1 hline hg, hr.2⟩,
      fun first _ heading hr hname hnamed => ⟨h.opens first heading hr.1 hname hnamed, hr.2⟩,
      fun hr hdeep => ⟨h.closes hr.1 hdeep, hr.2⟩, ?_,
      fun depth hr => ⟨h.skipTo depth hr.1, hr.2⟩, fun hr => ⟨h.stop hr.1, hr.2⟩⟩
    intro loads r t hr ht
    refine ⟨h.load hr.1 ht, ?_⟩
    intro l hl
    rcases List.mem_append.1 hl with hl | hl
    · exact hr.2 l hl
    · obtain rfl := List.mem_singleton.1 hl
      exact ⟨r, hr.1, rfl⟩
  exact (hnoting.ofText ⟨hr, by simp⟩).2 l hl

end Reader

end FlatNet
