import FlatNet.Proofs.Reading.Run

/-!
# The stack of open definitions

A whole text is read by one row of actions: the faults of its tokens are reported, its lines are
read, and what they have left open is closed.  `passes` lists the states on the way, also those
within an action in which the innermost definition is asked for.  In all of them the open
definitions are a stack on the definition of the text itself: each lies inside the next one, under
a name of its own.

What an action has to bring along for this is said by `Action.Fits`; the actions of a text fit the
stacks that they meet (`fitAll_textActions`), and what fits keeps them in order
(`Stacked.of_mem_passes`).
-/

set_option autoImplicit false

namespace FlatNet

/-- The definition is the one of the text itself, however much of it has been read. -/
structure Source.IsRoot (src : Source) (path : String) (d : Definition) : Prop where
  name : d.name = src.rootName path
  path : d.path = path
  origin : d.origin = some ⟨src.file, 1, 1⟩

namespace Reader

open Line (findingAt)

/-! ## Stacks -/

/-- The open definitions of a text, innermost first. -/
structure Stacked (src : Source) (path : String) (opened : List Definition) : Prop where
  /-- The last one is the text itself. -/
  bottom : ∃ root ∈ opened.getLast?, src.IsRoot path root
  /-- Each of the others lies inside the next one, under its name. -/
  paths : opened.IsChain fun d around => d.path = Scope.child around.path d.name
  /-- No two of the others have the same name. -/
  names : (opened.dropLast.map Definition.name).Nodup

namespace Stacked

variable {src : Source} {path : String} {opened : List Definition}

/-- A stack is not empty: the definition of the text is on it. -/
theorem ne_nil (h : Stacked src path opened) : opened ≠ [] := by
  rintro rfl
  obtain ⟨root, hroot, -⟩ := h.bottom
  simp at hroot

/-- A stack has at least one definition. -/
theorem length_pos (h : Stacked src path opened) : 0 < opened.length :=
  List.length_pos_of_ne_nil h.ne_nil

/-- The definition of the text by itself is a stack. -/
theorem singleton {root : Definition} (h : src.IsRoot path root) : Stacked src path [root] where
  bottom := ⟨root, by simp, h⟩
  paths := by simp
  names := by simp

/-- The text itself is the only definition that can be open alone. -/
theorem exists_root (h : Stacked src path opened) (hlength : opened.length = 1) :
    ∃ root, opened = [root] ∧ src.IsRoot path root := by
  obtain ⟨root, rfl⟩ := List.length_eq_one_iff.1 hlength
  obtain ⟨bottom, hbottom, hroot⟩ := h.bottom
  obtain rfl : root = bottom := by simpa using hbottom
  exact ⟨root, rfl, hroot⟩

/-- A change that keeps name, path and place of the innermost definition. -/
theorem modifyHead (h : Stacked src path opened) {g : Definition → Definition}
    (hg : ∀ d, (g d).name = d.name ∧ (g d).path = d.path ∧ (g d).origin = d.origin) :
    Stacked src path (opened.modifyHead g) := by
  obtain ⟨⟨root, hroot, hname, hpath, horigin⟩, hpaths, hnames⟩ := h
  match opened with
  | [] => simp at hroot
  | [d] =>
    obtain rfl : d = root := by simpa using hroot
    obtain ⟨hgname, hgpath, hgorigin⟩ := hg d
    exact singleton ⟨hgname.trans hname, hgpath.trans hpath, hgorigin.trans horigin⟩
  | d :: parent :: around =>
    obtain ⟨hgname, hgpath, -⟩ := hg d
    rw [List.isChain_cons_cons] at hpaths
    refine ⟨⟨root, by simpa using hroot, hname, hpath, horigin⟩, ?_, ?_⟩
    · rw [List.modifyHead_cons, List.isChain_cons_cons, hgname, hgpath]
      exact hpaths
    · simpa [hgname] using hnames

/-- A definition that lies inside the innermost one, under a name that is free. -/
theorem cons (h : Stacked src path opened) {d : Definition}
    (hpath : d.path = Scope.child (opened.headD default).path d.name)
    (hfresh : ∀ other ∈ opened.dropLast, other.name ≠ d.name) : Stacked src path (d :: opened) := by
  cases opened with
  | nil => exact absurd rfl h.ne_nil
  | cons parent around =>
    refine ⟨by simpa using h.bottom, List.isChain_cons_cons.2 ⟨hpath, h.paths⟩, ?_⟩
    rw [List.dropLast_cons_cons, List.map_cons, List.nodup_cons]
    refine ⟨?_, h.names⟩
    intro hmem
    obtain ⟨other, hother, heq⟩ := List.mem_map.1 hmem
    exact hfresh other hother heq

/-- The innermost of several definitions is taken off. -/
theorem tail (h : Stacked src path opened) (hdeep : 1 < opened.length) :
    Stacked src path opened.tail := by
  match opened with
  | [] => simp at hdeep
  | [d] => simp at hdeep
  | d :: parent :: around =>
    obtain ⟨hbottom, hpaths, hnames⟩ := h
    rw [List.dropLast_cons_cons, List.map_cons, List.nodup_cons] at hnames
    exact ⟨by simpa using hbottom, (List.isChain_cons_cons.1 hpaths).2, hnames.2⟩

end Stacked

/-! ## Actions one after another -/

section Passes

variable (src : Source) (load : Loader)

/-- The states in which an action asks for the innermost definition: when it begins, when a
definition has been taken off and the one around it is told, and when a library has been loaded and
its problem is still to be reported. -/
def passing (r : Reader) : Action → List Reader
  | .closes => [r, { r with work := { r.work with opened := r.work.opened.tail } }]
  | .load t => [r, { r with work := (load src.libraryKind t.text r.work).1 }]
  | _ => [r]

/-- The states that a row of actions passes through, its end included. -/
def passes (r : Reader) : List Action → List Reader
  | [] => [r]
  | a :: as => r.passing src load a ++ passes (r.perform src load a) as

/-- The action is possible with the given definitions open, and keeps them a stack. -/
def Action.Fits (opened : List Definition) : Action → Prop
  | .change g => ∀ d, (g d).name = d.name ∧ (g d).path = d.path ∧ (g d).origin = d.origin
  | .opens d =>
    d.path = Scope.child (opened.headD default).path d.name ∧
      ∀ other ∈ opened.dropLast, other.name ≠ d.name
  | .closes => 1 < opened.length
  | _ => True

/-- Every action of the row fits what is open when it is performed. -/
def FitAll (r : Reader) : List Action → Prop
  | [] => True
  | a :: as => a.Fits r.work.opened ∧ FitAll (r.perform src load a) as

variable {src load} {r : Reader} {as as' : List Action}

/-- The last state that is passed is the one behind the actions. -/
theorem getLast?_passes (r : Reader) (as : List Action) :
    (r.passes src load as).getLast? = some (r.performAll src load as) := by
  induction as generalizing r with
  | nil => rfl
  | cons a rest ih => rw [passes, List.getLast?_append, ih, performAll_cons, Option.some_or]

/-- Two rows of actions fit exactly if the first does, and the second does where the first ends. -/
theorem fitAll_append :
    r.FitAll src load (as ++ as') ↔
      r.FitAll src load as ∧ (r.performAll src load as).FitAll src load as' := by
  induction as generalizing r with
  | nil => simp [FitAll, performAll]
  | cons a rest ih => rw [List.cons_append, FitAll, FitAll, ih, performAll_cons, and_assoc]

/-- Whatever leaves the nesting alone fits. -/
theorem fitAll_of_inner {file : String} {line : List Token} (h : ∀ a ∈ as, a.Inner file line) :
    r.FitAll src load as := by
  induction as generalizing r with
  | nil => trivial
  | cons a rest ih =>
    obtain ⟨ha, hrest⟩ := List.forall_mem_cons.1 h
    refine ⟨?_, ih hrest⟩
    cases ha with
    | report _ => trivial
    | change hg => exact fun d => ⟨hg.name d, hg.path d, hg.origin d⟩
    | load _ => trivial

/-- Findings fit every stack. -/
theorem fitAll_map_report (fs : List Finding) : r.FitAll src load (fs.map .report) := by
  induction fs generalizing r with
  | nil => trivial
  | cons f rest ih => exact ⟨trivial, ih⟩

end Passes

/-! ## What fits keeps the stack in order -/

section Step

variable {src : Source} {load : Loader} {path : String} {r : Reader}

/-- A finding leaves the stack as it is. -/
theorem stacked_report (h : Stacked src path r.work.opened) (f : Finding) :
    Stacked src path (r.report f).work.opened := by
  rw [report_eq]
  dsimp only
  split
  · exact h.modifyHead fun _ => ⟨rfl, rfl, rfl⟩
  · exact h

/-- A change that keeps name, path and origin keeps the stack. -/
theorem stacked_modifyCurrent (h : Stacked src path r.work.opened) {g : Definition → Definition}
    (hg : ∀ d, (g d).name = d.name ∧ (g d).path = d.path ∧ (g d).origin = d.origin) :
    Stacked src path (r.modifyCurrent g).work.opened := by
  rw [modifyCurrent_eq]
  exact h.modifyHead hg

/-- Closing a definition other than the last keeps the stack. -/
theorem stacked_close (h : Stacked src path r.work.opened) (hdeep : 1 < r.work.opened.length) :
    Stacked src path r.close.work.opened := by
  have htail := h.tail hdeep
  cases hopened : r.work.opened with
  | nil => exact absurd hopened h.ne_nil
  | cons d around =>
    rw [hopened] at htail
    cases hcontains : r.work.forest.contains d.path with
    | true =>
      rw [close_of_contains hopened hcontains]
      exact stacked_report htail _
    | false =>
      rw [close_of_not_contains hopened hcontains]
      exact stacked_modifyCurrent htail fun _ => ⟨rfl, rfl, rfl⟩

section Loads

variable (hload : ∀ kind name w, (load kind name w).1.opened = w.opened)

include hload

/-- A library is read with a stack of its own, and its problem is reported to the old one. -/
theorem stacked_loaded (h : Stacked src path r.work.opened) (t : Token) :
    Stacked src path (r.loaded src load t).work.opened := by
  have hopened := hload src.libraryKind t.text r.work
  unfold loaded
  generalize load src.libraryKind t.text r.work = result at hopened ⊢
  obtain ⟨work, problem?⟩ := result
  rw [← hopened] at h
  cases problem? with
  | none => exact h
  | some problem =>
    apply stacked_report
    exact h

/-- An action that fits keeps the stack in order, also while it is performed. -/
theorem stacked_perform (h : Stacked src path r.work.opened) {a : Action}
    (ha : a.Fits r.work.opened) :
    (∀ p ∈ r.passing src load a, Stacked src path p.work.opened) ∧
      Stacked src path (r.perform src load a).work.opened := by
  cases a with
  | report f => exact ⟨by simpa [passing] using h, stacked_report h f⟩
  | change g => exact ⟨by simpa [passing] using h, stacked_modifyCurrent h ha⟩
  | opens d => exact ⟨by simpa [passing] using h, h.cons ha.1 ha.2⟩
  | closes =>
    refine ⟨?_, stacked_close h ha⟩
    simp only [passing, List.forall_mem_cons]
    exact ⟨h, h.tail ha, by simp⟩
  | load t =>
    refine ⟨?_, stacked_loaded hload h t⟩
    simp only [passing, List.forall_mem_cons]
    refine ⟨h, ?_, by simp⟩
    rwa [hload]
  | skipTo depth => exact ⟨by simpa [passing] using h, h⟩
  | stop => exact ⟨by simpa [passing] using h, h⟩

/-- Actions that fit keep the stack in order. -/
theorem Stacked.of_mem_passes {as : List Action} (h : Stacked src path r.work.opened)
    (has : r.FitAll src load as) :
    ∀ p ∈ r.passes src load as, Stacked src path p.work.opened := by
  induction as generalizing r with
  | nil => simpa [passes] using h
  | cons a rest ih =>
    obtain ⟨hpassing, hperform⟩ := stacked_perform hload h has.1
    intro p hp
    rcases List.mem_append.1 hp with hp | hp
    · exact hpassing p hp
    · exact ih hperform has.2 p hp

/-- Actions that fit keep the stack. -/
theorem Stacked.performAll {as : List Action} (h : Stacked src path r.work.opened)
    (has : r.FitAll src load as) : Stacked src path (r.performAll src load as).work.opened :=
  of_mem_passes hload h has _ (List.mem_of_getLast? (getLast?_passes r as))

end Loads

end Step

/-! ## The actions of a text -/

section Text

variable (src : Source) (load : Loader)

/-- The actions of the title line. -/
def titleActions (v : View) (line : List Token) : List Action :=
  match line with
  | [] => [.report (.usual .missingTitle none)]
  | first :: _ =>
    match first.kind with
    | .quotedString => [.change fun d => { d with title := first.text }]
    | _ => .report (findingAt src.file first .missingTitle) :: actions src v line

/-- The actions of the lines behind the title. -/
def linesActions (r : Reader) : List (List Token) → List Action
  | [] => []
  | line :: rest =>
    if r.ended then []
    else actions src r.view line ++ linesActions (r.readLine src load line) rest

/-- The actions of the logical lines. -/
def allActions (r : Reader) : List (List Token) → List Action
  | [] => [.report (.usual .missingTitle none)]
  | title :: rest =>
    titleActions src r.view title ++ linesActions src load (r.readTitle src load title) rest

/-- The actions that close a sub-circuit that the text has left open. -/
def unterminatedActions (r : Reader) : List Action :=
  [.report (.usual (.unterminatedSubcircuit r.current.name) r.current.origin), .closes]

/-- The actions that close a number of sub-circuits. -/
def leftOverActions : Nat → Reader → List Action
  | 0, _ => []
  | n + 1, r =>
    r.unterminatedActions ++
      leftOverActions n (r.performAll src load r.unterminatedActions)

/-- The actions at the end of the lines. -/
def endActions (r : Reader) : List Action :=
  let n := r.work.opened.length - 1
  leftOverActions src load n r ++
    if !(r.closeLeftOver n).ended && src.kind = .netlist then [.report (.usual .missingEnd none)]
    else []

/-- The actions of the tokens and lines of a text. -/
def readingActions (path text : String) (w : Workspace) : List Action :=
  (faults src.file text).map .report ++
    allActions src load ((initial src path text w).reportAll (faults src.file text))
      (tokenize text).lines

/-- The actions of a text. -/
def textActions (path text : String) (w : Workspace) : List Action :=
  readingActions src load path text w ++ endActions src load (readText load src path text w)

variable {src load}

/-- Reading the title is performing its actions. -/
theorem performAll_titleActions (r : Reader) (line : List Token) :
    r.performAll src load (titleActions src r.view line) = r.readTitle src load line := by
  unfold titleActions Reader.readTitle
  cases line with
  | nil => rfl
  | cons first rest =>
    dsimp only
    generalize first.kind = kind
    cases kind with
    | quotedString => rfl
    | _ =>
      rw [performAll_cons, readLine_eq, view_report]
      rfl

/-- Reading the lines behind the title is performing their actions. -/
theorem performAll_linesActions (r : Reader) (lines : List (List Token)) :
    r.performAll src load (linesActions src load r lines) = r.readLines src load lines := by
  induction lines generalizing r with
  | nil => rfl
  | cons line rest ih =>
    unfold linesActions Reader.readLines
    split
    · rfl
    · rw [performAll_append, ← readLine_eq, ih]

/-- Reading all lines is performing their actions. -/
theorem performAll_allActions (r : Reader) (lines : List (List Token)) :
    r.performAll src load (allActions src load r lines) = r.readAll src load lines := by
  cases lines with
  | nil => rfl
  | cons title rest =>
    unfold allActions readAll
    rw [performAll_append, performAll_titleActions, performAll_linesActions]

/-- Closing what is left over is performing its actions. -/
theorem performAll_leftOverActions (n : Nat) (r : Reader) :
    r.performAll src load (leftOverActions src load n r) = r.closeLeftOver n := by
  induction n generalizing r with
  | zero => rfl
  | succ n ih =>
    unfold leftOverActions closeLeftOver
    rw [performAll_append, ih]
    rfl

/-- The end of the lines is performing its actions. -/
theorem performAll_endActions (r : Reader) :
    r.performAll src load (endActions src load r) = r.closeAll src := by
  unfold endActions closeAll
  dsimp only
  rw [performAll_append, performAll_leftOverActions]
  split <;> rfl

/-- Reading a text is performing the actions of its tokens and lines. -/
theorem readText_eq_performAll (load : Loader) (src : Source) (path text : String)
    (w : Workspace) :
    readText load src path text w =
      (initial src path text w).performAll src load (readingActions src load path text w) := by
  unfold readingActions
  rw [performAll_append, performAll_map_report, performAll_allActions]
  rfl

/-- A text is read by performing its actions. -/
theorem ofText_eq_performAll (load : Loader) (src : Source) (path text : String) (w : Workspace) :
    ofText load src path text w =
      (initial src path text w).performAll src load (textActions src load path text w) := by
  unfold textActions
  rw [performAll_append, ← readText_eq_performAll, performAll_endActions]
  rfl

/-! ## The actions of a text fit -/

/-- The actions of a line fit what is open when it is read. -/
theorem fitAll_actions (r : Reader) (line : List Token) :
    r.FitAll src load (actions src r.view line) := by
  have hshape := lineShape_actions src r.view line
  revert hshape
  generalize actions src r.view line = as
  intro hshape
  cases hshape with
  | blank => trivial
  | inner _ _ has => exact fitAll_of_inner has
  | @opens first name rest _ _ _ hfresh =>
    have hpath : r.view.current.path = r.current.path := by
      rw [current_view]
      rfl
    refine ⟨⟨?_, ?_⟩, fitAll_map_report _⟩
    · show Scope.child r.view.current.path name.text = _
      rw [hpath]
      rfl
    · intro other hother
      apply hfresh other.uncounted
      unfold view
      rw [← List.map_dropLast]
      exact List.mem_map_of_mem hother
  | rejects _ _ _ => exact ⟨trivial, trivial, trivial⟩
  | closes _ _ hdeep =>
    rw [← length_opened_eq_view] at hdeep
    exact ⟨hdeep, trivial⟩
  | unmatched _ _ _ _ => exact ⟨trivial, trivial⟩
  | stops _ => exact ⟨trivial, trivial⟩
  | skips _ _ => trivial
  | deeper _ _ => exact ⟨trivial, trivial⟩
  | shallower _ _ => exact ⟨trivial, trivial⟩

/-- The actions of the title fit what is open. -/
theorem fitAll_titleActions (r : Reader) (line : List Token) :
    r.FitAll src load (titleActions src r.view line) := by
  unfold titleActions
  cases line with
  | nil => exact ⟨trivial, trivial⟩
  | cons first rest =>
    dsimp only
    generalize first.kind = kind
    cases kind with
    | quotedString => exact ⟨fun _ => ⟨rfl, rfl, rfl⟩, trivial⟩
    | _ =>
      refine ⟨trivial, ?_⟩
      rw [← view_report r (findingAt src.file first .missingTitle)]
      exact fitAll_actions _ _

/-- The actions of the lines fit the stacks that they meet, by induction on the lines. -/
theorem fitAll_linesActions (r : Reader) (lines : List (List Token)) :
    r.FitAll src load (linesActions src load r lines) := by
  induction lines generalizing r with
  | nil => trivial
  | cons line rest ih =>
    unfold linesActions
    split
    · trivial
    · rw [fitAll_append, ← readLine_eq]
      exact ⟨fitAll_actions r line, ih _⟩

/-- The actions of all lines fit the stacks that they meet. -/
theorem fitAll_allActions (r : Reader) (lines : List (List Token)) :
    r.FitAll src load (allActions src load r lines) := by
  cases lines with
  | nil => exact ⟨trivial, trivial⟩
  | cons title rest =>
    unfold allActions
    rw [fitAll_append, performAll_titleActions]
    exact ⟨fitAll_titleActions r title, fitAll_linesActions _ rest⟩

/-- As many sub-circuits are closed as are open around the innermost one. -/
theorem fitAll_leftOverActions {n : Nat} {r : Reader} (hn : n + 1 ≤ r.work.opened.length ∨ n = 0) :
    r.FitAll src load (leftOverActions src load n r) := by
  induction n generalizing r with
  | zero => trivial
  | succ n ih =>
    have hlength := length_opened_report r
      (.usual (.unterminatedSubcircuit r.current.name) r.current.origin)
    unfold leftOverActions
    rw [fitAll_append]
    refine ⟨⟨trivial, ?_, trivial⟩, ih ?_⟩
    · show 1 < (r.report _).work.opened.length
      omega
    · show n + 1 ≤ (r.report _).close.work.opened.length ∨ n = 0
      rw [length_opened_close]
      omega

/-- The actions at the end of the lines fit: as many definitions are closed as are open above the
last one. -/
theorem fitAll_endActions (r : Reader) : r.FitAll src load (endActions src load r) := by
  unfold endActions
  dsimp only
  rw [fitAll_append]
  refine ⟨fitAll_leftOverActions (by omega), ?_⟩
  split
  · exact ⟨trivial, trivial⟩
  · trivial

/-- The actions of tokens and lines fit the stacks that they meet. -/
theorem fitAll_readingActions (path text : String) (w : Workspace) :
    (initial src path text w).FitAll src load (readingActions src load path text w) := by
  unfold readingActions
  rw [fitAll_append, performAll_map_report]
  exact ⟨fitAll_map_report _, fitAll_allActions _ _⟩

/-- The actions of a text fit the stacks that they meet. -/
theorem fitAll_textActions (path text : String) (w : Workspace) :
    (initial src path text w).FitAll src load (textActions src load path text w) := by
  unfold textActions
  rw [fitAll_append, ← readText_eq_performAll]
  exact ⟨fitAll_readingActions path text w, fitAll_endActions _⟩

end Text

/-! ## The stack of a text -/

/-- The states that a reader passes through while a text is read. -/
def passesOfText (load : Loader) (src : Source) (path text : String) (w : Workspace) :
    List Reader :=
  (initial src path text w).passes src load (textActions src load path text w)

section Whole

variable {load : Loader} {src : Source} {path text : String} {w : Workspace}

/-- What a text is read to is settled in the last of the states. -/
theorem exists_getLast?_passesOfText (load : Loader) (src : Source) (path text : String)
    (w : Workspace) :
    ∃ r ∈ (passesOfText load src path text w).getLast?,
      readSource load src path text w = (r.settle.work, r.errors) := by
  refine ⟨ofText load src path text w, ?_, readSource_eq load src path text w⟩
  unfold passesOfText
  rw [getLast?_passes, ofText_eq_performAll]
  exact Option.mem_some_self _

/-- At the beginning the definition of the text is the only one that is open. -/
theorem stacked_initial (hempty : w.opened = []) :
    Stacked src path (initial src path text w).work.opened := by
  unfold initial
  dsimp only
  rw [hempty]
  exact Stacked.singleton ⟨rfl, rfl, rfl⟩

/-- Where nothing was open, the stack is in order in every state that the reader passes through. -/
theorem stacked_of_mem_passesOfText
    (hload : ∀ kind name w, (load kind name w).1.opened = w.opened) (hempty : w.opened = []) :
    ∀ r ∈ passesOfText load src path text w, Stacked src path r.work.opened :=
  Stacked.of_mem_passes hload (stacked_initial hempty) (fitAll_textActions path text w)

/-- When a text has been read nothing is open any more, and its definition is in the forest. -/
theorem exists_root_readSource (src : Source) (path text : String)
    (hload : ∀ kind name w, (load kind name w).1.opened = w.opened) (hempty : w.opened = []) :
    (readSource load src path text w).1.opened = [] ∧
      ∃ root, (readSource load src path text w).1.forest[path]? = some root ∧
        src.IsRoot path root := by
  have hinitial : Stacked src path (initial src path text w).work.opened := stacked_initial hempty
  have hread : Stacked src path (readText load src path text w).work.opened := by
    rw [readText_eq_performAll]
    exact hinitial.performAll hload (fitAll_readingActions path text w)
  have hclosed : Stacked src path (ofText load src path text w).work.opened := by
    rw [ofText_eq_performAll]
    exact hinitial.performAll hload (fitAll_textActions path text w)
  obtain ⟨root, hopened, hroot⟩ := hclosed.exists_root (length_opened_closeAll src hread.length_pos)
  rw [readSource_eq]
  unfold settle
  rw [hopened]
  refine ⟨rfl, root, ?_, hroot⟩
  simp [hroot.path]

end Whole

end Reader

end FlatNet
