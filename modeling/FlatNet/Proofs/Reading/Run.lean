import FlatNet.Proofs.Reading.Action
import FlatNet.Proofs.Token

/-!
# Runs of a reader

A text is read by what its lines do, by closing what they have left open, and by settling the text's
own definition.  Two readers that see the same and are kept alike by every action are alike when the
text has been read; `Simulation.ofText` is this induction.  What every action keeps of one reader is
the special case `Keeps.ofText`.
-/

set_option autoImplicit false

namespace FlatNet.Reader

open Line (findingAt originOf IsAt)

/-! ## Steps -/

section Steps

variable (r : Reader) (f : Finding) (g : Definition → Definition)

/-- A change of the innermost definition changes the first of those that are open. -/
theorem modifyCurrent_eq :
    r.modifyCurrent g =
      { r with work := { r.work with opened := r.work.opened.modifyHead g } } := by
  obtain ⟨work, skipDepth, ended, errors⟩ := r
  obtain ⟨settings, forest, opened, user, builtin, compiled, diagnostics⟩ := work
  cases opened with
  | nil => rfl
  | cons d around => rfl

/-- Counts an error. -/
def countError (d : Definition) : Definition := { d with errors := d.errors + 1 }

/-- A finding is recorded, and counted in the innermost definition if it is an error. -/
theorem report_eq :
    r.report f =
      { r with
        work := { r.work with
          diagnostics := r.work.diagnostics.record f
          opened := if f.isError then r.work.opened.modifyHead countError else r.work.opened }
        errors := r.errors + if f.isError then 1 else 0 } := by
  unfold report
  cases f.isError with
  | false => rfl
  | true => exact modifyCurrent_eq _ _

variable {r} {d : Definition} {around : List Definition}

/-- A sub-circuit whose path is taken is dropped. -/
theorem close_of_contains (hopened : r.work.opened = d :: around)
    (h : r.work.forest.contains d.path = true) :
    r.close = report { r with work := { r.work with opened := around } }
      (.usual (.duplicateSubcircuit d.name) d.origin) := by
  unfold close
  rw [hopened]
  exact if_pos h

/-- A sub-circuit whose path is free is added to the forest. -/
theorem close_of_not_contains (hopened : r.work.opened = d :: around)
    (h : r.work.forest.contains d.path = false) :
    r.close = modifyCurrent
      { r with
        work := { r.work with opened := around, forest := r.work.forest.insert d.path d } }
      (fun parent => { parent with subcircuits := parent.subcircuits ++ [d.name] }) := by
  unfold close
  rw [hopened]
  exact if_neg (by rw [h]; simp)

end Steps

/-! ## Lines one after another -/

section Lines

variable {src : Source} {load : Loader} {r : Reader}

/-- When the text has ended no line is read. -/
theorem readLines_of_ended (h : r.ended = true) (lines : List (List Token)) :
    r.readLines src load lines = r := by
  cases lines with
  | nil => rfl
  | cons line rest =>
    unfold readLines
    rw [if_pos h]

/-- Lines are read from the first one on. -/
theorem readLines_cons (h : r.ended = false) (line : List Token) (rest : List (List Token)) :
    r.readLines src load (line :: rest) = (r.readLine src load line).readLines src load rest :=
  if_neg (by rw [h]; simp)

/-- Lines in two parts are read one part after the other. -/
theorem readLines_append (r : Reader) (lines rest : List (List Token)) :
    r.readLines src load (lines ++ rest) =
      (r.readLines src load lines).readLines src load rest := by
  induction lines generalizing r with
  | nil => rfl
  | cons line lines ih =>
    cases hended : r.ended with
    | true =>
      rw [readLines_of_ended hended, readLines_of_ended hended]
      exact (readLines_of_ended hended rest).symm
    | false =>
      rw [List.cons_append, readLines_cons hended, readLines_cons hended]
      exact ih _

end Lines

/-! ## Texts -/

/-- A reader at the beginning of a text. -/
def initial (src : Source) (path text : String) (w : Workspace) : Reader where
  work :=
    { w with
      diagnostics := w.diagnostics.addSource src.file text
      opened := Definition.blank (src.rootName path) path "" (some ⟨src.file, 1, 1⟩) :: w.opened }
  skipDepth := 0
  ended := false
  errors := 0

/-- The faults of the tokens of a text, as findings. -/
def faults (file text : String) : List Finding :=
  (tokenize text).faults.map fun f => .usual f.problem (some ⟨file, f.line, f.column⟩)

/-- The reader when the logical lines have been read. -/
def readAll (src : Source) (load : Loader) (r : Reader) : List (List Token) → Reader
  | [] => r.report (.usual .missingTitle none)
  | title :: rest => (r.readTitle src load title).readLines src load rest

/-- The reader when only the text's own definition is left open. -/
def closeAll (src : Source) (r : Reader) : Reader :=
  let r := closeLeftOver (r.work.opened.length - 1) r
  if !r.ended && src.kind = .netlist then r.report (.usual .missingEnd none) else r

/-- The reader when the text's own definition has been added to the forest. -/
def settle (r : Reader) : Reader :=
  match r.work.opened with
  | [] => r
  | root :: around =>
    { r with
      work := { r.work with opened := around, forest := r.work.forest.insert root.path root } }

/-- The reader when the lines of a text have been read. -/
def readText (load : Loader) (src : Source) (path text : String) (w : Workspace) : Reader :=
  ((initial src path text w).reportAll (faults src.file text)).readAll src load
    (tokenize text).lines

/-- The reader at the end of a text, with the text's own definition still open. -/
def ofText (load : Loader) (src : Source) (path text : String) (w : Workspace) : Reader :=
  (readText load src path text w).closeAll src

/-- The reader at the end of a text whose tokens are known. -/
def ofTokens (load : Loader) (src : Source) (path text : String) (tokens : Tokenized)
    (w : Workspace) : Reader :=
  let faults := tokens.faults.map fun f => .usual f.problem (some ⟨src.file, f.line, f.column⟩)
  ((((initial src path text w).reportAll faults).readAll src load) tokens.lines).closeAll src

/-- A text is read through its tokens. -/
theorem ofText_eq_ofTokens (load : Loader) (src : Source) (path text : String) (w : Workspace) :
    ofText load src path text w = ofTokens load src path text (tokenize text) w := rfl

/-- Reading a source is reading its text and settling it. -/
theorem readSource_eq (load : Loader) (src : Source) (path text : String) (w : Workspace) :
    readSource load src path text w =
      ((ofText load src path text w).settle.work, (ofText load src path text w).errors) := by
  have hfinish : ∀ r : Reader, r.finish src = (r.closeAll src).settle := fun _ => rfl
  have herrors : ∀ r : Reader, r.settle.errors = r.errors := by
    intro r
    unfold settle
    split <;> rfl
  rw [ofText, ← hfinish, ← herrors, ← hfinish]
  unfold readSource readText readAll
  dsimp only
  rfl

/-! ## Readers that stay alike -/

/-- Two readers that see the same are kept alike by whatever is done to both of them, each with its
own loader. -/
structure Simulation (src : Source) (load₁ load₂ : Loader) (R : Reader → Reader → Prop) :
    Prop where
  view : ∀ {r₁ r₂}, R r₁ r₂ → r₁.view = r₂.view
  ended : ∀ {r₁ r₂}, R r₁ r₂ → r₁.ended = r₂.ended
  opened : ∀ {r₁ r₂}, R r₁ r₂ → 0 < r₁.work.opened.length
  report : ∀ {r₁ r₂} (f : Finding), R r₁ r₂ → f.problem.problemClass ≠ .reference →
    R (r₁.report f) (r₂.report f)
  change : ∀ {r₁ r₂} {g : Definition → Definition} {line : List Token}, R r₁ r₂ →
    (∀ t ∈ line, t.Named) → Mild src.file line g → R (r₁.modifyCurrent g) (r₂.modifyCurrent g)
  opens : ∀ {r₁ r₂} (first : Token) {name : Token} (heading : Line.Heading), R r₁ r₂ →
    name.isIdentifier = true → name.Named →
    R (r₁.push (opening src r₁.view first name heading))
      (r₂.push (opening src r₁.view first name heading))
  closes : ∀ {r₁ r₂}, R r₁ r₂ → 1 < r₁.work.opened.length → R r₁.close r₂.close
  load : ∀ {r₁ r₂} {t : Token}, R r₁ r₂ → t.Named →
    R (r₁.loaded src load₁ t) (r₂.loaded src load₂ t)
  skipTo : ∀ {r₁ r₂} (depth : Nat), R r₁ r₂ →
    R { r₁ with skipDepth := depth } { r₂ with skipDepth := depth }
  stop : ∀ {r₁ r₂}, R r₁ r₂ → R r₁.readEnd r₂.readEnd

/-- A structural problem is no problem with a reference. -/
theorem problemClass_ne_reference {problem : Problem} (h : problem.problemClass = .structural)
    (origin : Option Origin) :
    (Finding.usual problem origin).problem.problemClass ≠ .reference := by
  show problem.problemClass ≠ .reference
  rw [h]
  decide

/-- A structural finding at a token is no one of references. -/
theorem problemClass_of_isAt {file : String} {line : List Token} {f : Finding}
    (h : IsAt file line f) : f.problem.problemClass ≠ .reference := by
  obtain ⟨t, -, problem, hclass, rfl⟩ := h
  exact problemClass_ne_reference hclass _

/-- A reader sees how many definitions are open. -/
theorem length_opened_eq_view (r : Reader) : r.work.opened.length = r.view.opened.length :=
  (List.length_map _).symm

/-- A change of the innermost definition opens and closes none. -/
theorem length_opened_modifyCurrent (r : Reader) (g : Definition → Definition) :
    (r.modifyCurrent g).work.opened.length = r.work.opened.length := by
  rw [modifyCurrent_eq]
  exact List.length_modifyHead

/-- A finding opens and closes no definition. -/
theorem length_opened_report (r : Reader) (f : Finding) :
    (r.report f).work.opened.length = r.work.opened.length := by
  rw [length_opened_eq_view, view_report, ← length_opened_eq_view]

/-- Findings open and close no definition. -/
theorem length_opened_reportAll (r : Reader) (fs : List Finding) :
    (r.reportAll fs).work.opened.length = r.work.opened.length := by
  rw [length_opened_eq_view, view_reportAll, ← length_opened_eq_view]

/-- Closing a definition leaves one less open. -/
theorem length_opened_close (r : Reader) :
    r.close.work.opened.length = r.work.opened.length - 1 := by
  cases hopened : r.work.opened with
  | nil =>
    unfold close
    rw [hopened]
    exact congrArg List.length hopened
  | cons d around =>
    cases h : r.work.forest.contains d.path with
    | true =>
      rw [close_of_contains hopened h, length_opened_report]
      rfl
    | false =>
      rw [close_of_not_contains hopened h, length_opened_modifyCurrent]
      rfl

/-- Closing what is left over leaves so much less open. -/
theorem length_opened_closeLeftOver (n : Nat) (r : Reader) :
    (r.closeLeftOver n).work.opened.length = r.work.opened.length - n := by
  induction n generalizing r with
  | zero => rfl
  | succ n ih =>
    unfold closeLeftOver
    rw [ih, length_opened_close, length_opened_report]
    omega

/-- In the end one definition is open. -/
theorem length_opened_closeAll (src : Source) {r : Reader} (h : 0 < r.work.opened.length) :
    (r.closeAll src).work.opened.length = 1 := by
  have hleft := length_opened_closeLeftOver (r.work.opened.length - 1) r
  unfold closeAll
  dsimp only
  split
  · rw [length_opened_report]
    omega
  · omega

namespace Simulation

variable {src : Source} {load₁ load₂ : Loader} {R : Reader → Reader → Prop} {r₁ r₂ : Reader}

/-- Readers that are kept alike are so behind the same findings. -/
theorem reportAll (h : Simulation src load₁ load₂ R) (hr : R r₁ r₂) (fs : List Finding)
    (hfs : ∀ f ∈ fs, f.problem.problemClass ≠ .reference) :
    R (r₁.reportAll fs) (r₂.reportAll fs) := by
  induction fs generalizing r₁ r₂ with
  | nil => exact hr
  | cons f rest ih =>
    obtain ⟨hf, hrest⟩ := List.forall_mem_cons.1 hfs
    exact ih (h.report f hr hf) hrest

/-- Actions that leave the nesting alone keep readers alike. -/
theorem performAll_inner (h : Simulation src load₁ load₂ R) (hr : R r₁ r₂)
    {line : List Token} (hline : ∀ t ∈ line, t.Named) (as : List Action)
    (has : ∀ a ∈ as, a.Inner src.file line) :
    R (r₁.performAll src load₁ as) (r₂.performAll src load₂ as) := by
  induction as generalizing r₁ r₂ with
  | nil => exact hr
  | cons a rest ih =>
    obtain ⟨ha, hrest⟩ := List.forall_mem_cons.1 has
    refine ih ?_ hrest
    cases ha with
    | report hf => exact h.report _ hr (problemClass_of_isAt hf)
    | change hg => exact h.change hr hline hg
    | load ht => exact h.load hr (hline _ ht)

/-- A line keeps readers alike. -/
theorem readLine (h : Simulation src load₁ load₂ R) (hr : R r₁ r₂) {line : List Token}
    (hline : ∀ t ∈ line, t.Named) :
    R (r₁.readLine src load₁ line) (r₂.readLine src load₂ line) := by
  rw [readLine_eq, readLine_eq, ← h.view hr]
  have hshape := lineShape_actions src r₁.view line
  revert hshape
  generalize actions src r₁.view line = as
  intro hshape
  cases hshape with
  | blank => exact hr
  | inner _ _ has => exact h.performAll_inner hr hline as has
  | @opens first name rest _ _ hname _ =>
    rw [performAll_cons, performAll_cons, performAll_map_report, performAll_map_report]
    have hnamed : name.Named := hline name (List.mem_cons_of_mem _ List.mem_cons_self)
    refine h.reportAll (h.opens first _ hr hname hnamed) _ fun f hf => ?_
    exact problemClass_of_isAt (Line.isAt_readHeading f hf)
  | rejects _ _ hf => exact h.skipTo 1 (h.report _ hr (problemClass_of_isAt hf))
  | closes _ _ hdeep =>
    rw [← length_opened_eq_view] at hdeep
    exact h.closes hr hdeep
  | unmatched _ _ _ hf => exact h.report _ hr (problemClass_of_isAt hf)
  | stops _ => exact h.stop hr
  | skips _ _ => exact hr
  | deeper _ _ => exact h.skipTo _ hr
  | shallower _ _ => exact h.skipTo _ hr

/-- Setting the title is a mild change. -/
theorem mild_title {file : String} {line : List Token} (title : String) :
    Mild file line fun d => { d with title } :=
  mild_of_eq (fun _ => ⟨rfl, rfl, rfl, rfl, rfl, rfl, rfl, rfl⟩) fun _ => rfl

/-- Readers that are kept alike are so behind the title. -/
theorem readTitle (h : Simulation src load₁ load₂ R) (hr : R r₁ r₂) {line : List Token}
    (hline : ∀ t ∈ line, t.Named) :
    R (r₁.readTitle src load₁ line) (r₂.readTitle src load₂ line) := by
  unfold Reader.readTitle
  split
  · exact h.report _ hr (problemClass_ne_reference rfl _)
  · split
    · exact h.change hr hline (mild_title _)
    · exact h.readLine (h.report _ hr (problemClass_ne_reference rfl _)) hline

/-- Readers that are kept alike are so behind the lines of a text, by induction on the lines. -/
theorem readLines (h : Simulation src load₁ load₂ R) (hr : R r₁ r₂)
    {lines : List (List Token)} (hlines : ∀ line ∈ lines, ∀ t ∈ line, t.Named) :
    R (r₁.readLines src load₁ lines) (r₂.readLines src load₂ lines) := by
  induction lines generalizing r₁ r₂ with
  | nil => exact hr
  | cons line rest ih =>
    obtain ⟨hline, hrest⟩ := List.forall_mem_cons.1 hlines
    unfold Reader.readLines
    rw [← h.ended hr]
    split
    · exact hr
    · exact ih (h.readLine hr hline) hrest

/-- Readers that are kept alike are so when all lines have been read. -/
theorem readAll (h : Simulation src load₁ load₂ R) (hr : R r₁ r₂)
    {lines : List (List Token)} (hlines : ∀ line ∈ lines, ∀ t ∈ line, t.Named) :
    R (r₁.readAll src load₁ lines) (r₂.readAll src load₂ lines) := by
  cases lines with
  | nil => exact h.report (.usual .missingTitle none) hr (problemClass_ne_reference rfl _)
  | cons title rest =>
    obtain ⟨htitle, hrest⟩ := List.forall_mem_cons.1 hlines
    exact h.readLines (h.readTitle hr htitle) hrest

/-- Readers that are kept alike are so when what is left over has been closed. -/
theorem closeLeftOver (h : Simulation src load₁ load₂ R) (hr : R r₁ r₂) (n : Nat)
    (hn : n < r₁.work.opened.length) : R (r₁.closeLeftOver n) (r₂.closeLeftOver n) := by
  induction n generalizing r₁ r₂ with
  | zero => exact hr
  | succ n ih =>
    have hcurrent : r₁.current.uncounted = r₂.current.uncounted := by
      rw [← current_view, ← current_view, h.view hr]
    have hname : r₁.current.uncounted.name = r₂.current.uncounted.name := by rw [hcurrent]
    have horigin : r₁.current.uncounted.origin = r₂.current.uncounted.origin := by rw [hcurrent]
    change r₁.current.name = r₂.current.name at hname
    change r₁.current.origin = r₂.current.origin at horigin
    unfold Reader.closeLeftOver
    rw [← hname, ← horigin]
    have hclass : (Problem.unterminatedSubcircuit r₁.current.name).problemClass = .structural := rfl
    have hreported := h.report _ hr (problemClass_ne_reference hclass r₁.current.origin)
    have hlength := length_opened_report r₁
      (.usual (.unterminatedSubcircuit r₁.current.name) r₁.current.origin)
    refine ih (h.closes hreported (by omega)) ?_
    rw [length_opened_close]
    omega

/-- Readers that are kept alike are so at the end of the lines. -/
theorem closeAll (h : Simulation src load₁ load₂ R) (hr : R r₁ r₂) :
    R (r₁.closeAll src) (r₂.closeAll src) := by
  have hopened := h.opened hr
  have hlength : r₁.work.opened.length = r₂.work.opened.length := by
    rw [length_opened_eq_view, length_opened_eq_view, h.view hr]
  have hclosed := h.closeLeftOver hr (r₁.work.opened.length - 1) (by omega)
  unfold Reader.closeAll
  dsimp only
  rw [← hlength, ← h.ended hclosed]
  split
  · exact h.report _ hclosed (problemClass_ne_reference rfl _)
  · exact hclosed

/-- Readers that are alike at the beginning of a text are alike when its lines have been read. -/
theorem readText (h : Simulation src load₁ load₂ R) {path text : String} {w₁ w₂ : Workspace}
    (hr : R (initial src path text w₁) (initial src path text w₂)) :
    R (Reader.readText load₁ src path text w₁) (Reader.readText load₂ src path text w₂) := by
  have hfaults : ∀ f ∈ faults src.file text, f.problem.problemClass ≠ .reference := by
    intro f hf
    obtain ⟨fault, hfault, rfl⟩ := List.mem_map.1 hf
    exact Tokenized.problemClass_of_mem_faults fault hfault
  exact h.readAll (h.reportAll hr _ hfaults) Tokenized.named_of_mem_lines

/-- Readers that are alike at the beginning of a text are alike at its end. -/
theorem ofText (h : Simulation src load₁ load₂ R) {path text : String} {w₁ w₂ : Workspace}
    (hr : R (initial src path text w₁) (initial src path text w₂)) :
    R (Reader.ofText load₁ src path text w₁) (Reader.ofText load₂ src path text w₂) :=
  h.closeAll (h.readText hr)

end Simulation

/-! ## What a reader keeps -/

/-- Whatever is done to a reader keeps the property. -/
structure Keeps (src : Source) (load : Loader) (P : Reader → Prop) : Prop where
  opened : ∀ {r}, P r → 0 < r.work.opened.length
  report : ∀ {r} (f : Finding), P r → f.problem.problemClass ≠ .reference → P (r.report f)
  change : ∀ {r} {g : Definition → Definition} {line : List Token}, P r →
    (∀ t ∈ line, t.Named) → Mild src.file line g → P (r.modifyCurrent g)
  opens : ∀ {r} (first : Token) {name : Token} (heading : Line.Heading), P r →
    name.isIdentifier = true → name.Named → P (r.push (opening src r.view first name heading))
  closes : ∀ {r}, P r → 1 < r.work.opened.length → P r.close
  load : ∀ {r} {t : Token}, P r → t.Named → P (r.loaded src load t)
  skipTo : ∀ {r} (depth : Nat), P r → P { r with skipDepth := depth }
  stop : ∀ {r}, P r → P r.readEnd

namespace Keeps

variable {src : Source} {load : Loader} {P : Reader → Prop}

/-- A property that is kept is a way in which a reader stays like itself. -/
theorem simulation (h : Keeps src load P) :
    Simulation src load load fun r₁ r₂ => r₁ = r₂ ∧ P r₁ where
  view := fun hr => congrArg view hr.1
  ended := fun hr => congrArg ended hr.1
  opened := fun hr => h.opened hr.2
  report := by
    rintro r _ f ⟨rfl, hr⟩ hf
    exact ⟨rfl, h.report f hr hf⟩
  change := by
    rintro r _ g line ⟨rfl, hr⟩ hline hg
    exact ⟨rfl, h.change hr hline hg⟩
  opens := by
    rintro r _ first name heading ⟨rfl, hr⟩ hname hnamed
    exact ⟨rfl, h.opens first heading hr hname hnamed⟩
  closes := by
    rintro r _ ⟨rfl, hr⟩ hdeep
    exact ⟨rfl, h.closes hr hdeep⟩
  load := by
    rintro r _ t ⟨rfl, hr⟩ ht
    exact ⟨rfl, h.load hr ht⟩
  skipTo := by
    rintro r _ depth ⟨rfl, hr⟩
    exact ⟨rfl, h.skipTo depth hr⟩
  stop := by
    rintro r _ ⟨rfl, hr⟩
    exact ⟨rfl, h.stop hr⟩

variable {path text : String} {w : Workspace}

/-- What is kept and holds at the beginning of a text holds at its end. -/
theorem ofText (h : Keeps src load P) (hr : P (initial src path text w)) :
    P (Reader.ofText load src path text w) := (h.simulation.ofText ⟨rfl, hr⟩).2

/-- At the end of a text only its own definition is open. -/
theorem length_opened_ofText (h : Keeps src load P) (hr : P (initial src path text w)) :
    (Reader.ofText load src path text w).work.opened.length = 1 :=
  length_opened_closeAll src (h.opened (h.simulation.readText ⟨rfl, hr⟩).2)

end Keeps

end FlatNet.Reader
