import FlatNet.Proofs.Pieces
import FlatNet.Proofs.Verdict

/-!
# What stands behind the end command

Of a text in which the end command has been recognised behind the title, no further line is read.
But the whole text is cut into tokens before its first line is read, and a fault of a token counts
wherever it stands.  So the circuit of such a netlist depends on the text behind the end command
through the number of faults in it, and through nothing else.
-/

set_option autoImplicit false

namespace FlatNet

/-- The definition with errors counted in addition. -/
def Definition.charged (k : Nat) (d : Definition) : Definition := { d with errors := d.errors + k }

/-- Errors that are counted in addition add up. -/
theorem Definition.charged_charged (k l : Nat) (d : Definition) :
    (d.charged k).charged l = d.charged (k + l) := by
  show { d with errors := d.errors + k + l } = { d with errors := d.errors + (k + l) }
  rw [Nat.add_assoc]

/-- A definition is determined by what it holds and by its errors. -/
theorem Definition.eq_of_uncounted {d₁ d₂ : Definition} (h : d₁.uncounted = d₂.uncounted)
    (herrors : d₁.errors = d₂.errors) : d₁ = d₂ := by
  have hcharged : d₁.uncounted.charged d₁.errors = d₂.uncounted.charged d₂.errors := by
    rw [h, herrors]
  have hback : ∀ d : Definition, d.uncounted.charged d.errors = d := by
    intro d
    show { d with errors := 0 + d.errors } = d
    rw [Nat.zero_add]
  rwa [hback, hback] at hcharged

/-- The workspace with nothing open and nothing reported. -/
def Workspace.shut (w : Workspace) : Workspace :=
  { w with opened := [], diagnostics := Diagnostics.empty }

namespace Tokenized

/-- One of the lines ends the text. -/
def Ends (lines : List (List Token)) : Prop :=
  ∃ line ∈ lines, ∃ first rest, line = first :: rest ∧ first.bracket = .final

/-- A line ends the text exactly if its first token is the end command. -/
theorem ends_iff {lines : List (List Token)} :
    (lines.any fun line => line.head?.any fun t => decide (t.bracket = .final)) = true ↔
      Ends lines := by
  rw [List.any_eq_true]
  refine exists_congr fun line => and_congr_right fun _ => ?_
  cases line with
  | nil => simp
  | cons t rest => simp

instance (lines : List (List Token)) : Decidable (Ends lines) := decidable_of_iff _ ends_iff

/-- The end command is recognised behind the title. -/
def Ended (t : Tokenized) : Prop := Ends t.lines.tail

instance (t : Tokenized) : Decidable t.Ended := inferInstanceAs (Decidable (Ends t.lines.tail))

/-- A text that is ended has lines. -/
theorem Ended.lines_ne_nil {t : Tokenized} (h : t.Ended) : t.lines ≠ [] := by
  intro hnil
  obtain ⟨line, hline, -⟩ := h
  rw [hnil] at hline
  exact absurd hline List.not_mem_nil

/-- The faults of a text are errors. -/
theorem severity_of_mem_faults {text : String} :
    ∀ f ∈ (tokenize text).faults, f.problem.severity = .error := by
  have hlexical : ∀ problem : Problem, problem.problemClass = .lexical →
      problem.severity = .error := by
    intro problem h
    cases problem <;> first | rfl | exact absurd h (by simp [Problem.problemClass])
  intro f hf
  rcases List.mem_append.1 hf with hf | hf
  · obtain ⟨l, hl, hsome⟩ := List.mem_filterMap.1 hf
    obtain ⟨row, hrow, hl⟩ := List.mem_flatten.1 hl
    obtain ⟨k, hk, rfl⟩ := List.mem_iff_getElem.1 hrow
    have hproper := (Lexer.cutFrom_lexLines 1 true _ k hk l hl).properAt
    cases l with
    | token t => exact absurd hsome (by simp [Lexeme.fault?])
    | fault f' =>
      rw [← Option.some.inj hsome]
      exact hlexical _ hproper.1
  · obtain ⟨t, -, rfl⟩ := List.mem_map.1 hf
    rfl

/-- The lines up to the first one that ends the text, and of that its first token. -/
def upToEnd : List (List Token) → List (List Token)
  | [] => []
  | [] :: more => [] :: upToEnd more
  | (first :: rest) :: more =>
    if first.bracket = .final then [[first]] else (first :: rest) :: upToEnd more

/-- What makes the last line longer or follows it stands behind the end. -/
theorem upToEnd_append {earlier : List (List Token)} {last : List Token}
    (h : Ends (earlier ++ [last])) (more : List Token) (later : List (List Token)) :
    upToEnd (earlier ++ (last ++ more) :: later) = upToEnd (earlier ++ [last]) := by
  obtain ⟨line, hline, first, rest, rfl, hfinal⟩ := h
  induction earlier with
  | nil =>
    obtain rfl := List.mem_singleton.1 hline
    simp only [List.nil_append, List.cons_append, upToEnd, if_pos hfinal]
  | cons head earlier ih =>
    cases head with
    | nil =>
      rcases List.mem_cons.1 hline with hnil | hmem
      · exact absurd hnil (by simp)
      · exact congrArg ([] :: ·) (ih hmem)
    | cons t ts =>
      by_cases ht : t.bracket = .final
      · simp only [List.cons_append, upToEnd, if_pos ht]
      · rcases List.mem_cons.1 hline with heq | hmem
        · obtain ⟨rfl, -⟩ := List.cons.inj heq
          exact absurd hfinal ht
        · simp only [List.cons_append, upToEnd, if_neg ht]
          exact congrArg ((t :: ts) :: ·) (ih hmem)

end Tokenized

namespace Reader

open Tokenized (upToEnd)

variable {src : Source} {load : Loader} {r : Reader}

/-! ## Lines behind the end command -/

/-- The line of the end command is read as the end, whatever else stands on it. -/
theorem readLine_of_final {first : Token} (h : first.bracket = .final) (rest : List Token) :
    r.readLine src load (first :: rest) = r.readEnd := by
  rw [readLine_eq]
  have hshape := lineShape_actions src r.view (first :: rest)
  revert hshape
  generalize actions src r.view (first :: rest) = as
  intro hshape
  have hne : ∀ {bracket : Bracket}, first.bracket = bracket → bracket ≠ .final → False :=
    fun hbracket hne => hne (hbracket.symm.trans h)
  cases hshape with
  | stops _ => rfl
  | inner _ hfirst _ => exact (hne hfirst (by decide)).elim
  | opens _ hfirst _ _ => exact (hne hfirst (by decide)).elim
  | rejects _ hfirst _ => exact (hne hfirst (by decide)).elim
  | closes _ hfirst _ => exact (hne hfirst (by decide)).elim
  | unmatched _ hfirst _ _ => exact (hne hfirst (by decide)).elim
  | skips _ hfirst => exact (hne hfirst (by decide)).elim
  | deeper _ hfirst => exact (hne hfirst (by decide)).elim
  | shallower _ hfirst => exact (hne hfirst (by decide)).elim

/-- No line is read behind the end command. -/
theorem readLines_upToEnd (r : Reader) (lines : List (List Token)) :
    r.readLines src load (upToEnd lines) = r.readLines src load lines := by
  induction lines generalizing r with
  | nil => rfl
  | cons line rest ih =>
    cases hended : r.ended with
    | true => rw [readLines_of_ended hended, readLines_of_ended hended]
    | false =>
      have hread : ∀ (line : List Token) (lines : List (List Token)),
          r.readLines src load (line :: lines) =
            (r.readLine src load line).readLines src load lines := by
        intro line lines
        conv_lhs => unfold readLines
        rw [hended]
        rfl
      cases line with
      | nil =>
        unfold upToEnd
        rw [hread, hread, ih]
      | cons first tokens =>
        unfold upToEnd
        split
        · rename_i hfinal
          rw [hread, hread, readLine_of_final hfinal, readLine_of_final hfinal,
            readLines_of_ended rfl, readLines_of_ended rfl]
        · rw [hread, hread, ih]

/-! ## Errors counted beforehand -/

/-- The reader with nothing open, nothing reported and no errors found. -/
def bare (r : Reader) : Reader := { r with work := r.work.shut, errors := 0 }

/-- The second reader has counted errors in addition, in the outermost definition. -/
structure Ahead (k : Nat) (r₁ r₂ : Reader) : Prop where
  bare : r₁.bare = r₂.bare
  errors : r₂.errors = r₁.errors + k
  opened : ∃ inner root, r₁.work.opened = inner ++ [root] ∧
    r₂.work.opened = inner ++ [root.charged k]

end Reader

namespace Loading

variable (load : Loader) (disk : Disk) (kind : LibraryKind) (w : Workspace)
  (opened : List Definition)

/-- What is made of a library text does not depend on the definitions that are open around it. -/
theorem compileText_opened (label text : String) :
    (compileText load kind label text { w with opened }).1 =
      { (compileText load kind label text w).1 with opened } := by
  have hread : readerOf load kind label text { w with opened } =
      readerOf load kind label text w := rfl
  rw [compileText_eq, compileText_eq]
  dsimp only
  rw [hread]
  generalize readerOf load kind label text w = r
  have hresolved : resolutionOf kind label { w with opened } r = resolutionOf kind label w r := by
    unfold resolutionOf surroundings released
    rfl
  rw [hresolved]
  generalize resolutionOf kind label w r = resolved
  cases kind with
  | builtin => rfl
  | user => rfl

/-- Compiling a library file does not touch the definitions that are open. -/
theorem compileFile_opened (path : String) :
    compileFile load disk kind path { w with opened } =
      ({ (compileFile load disk kind path w).1 with opened },
        (compileFile load disk kind path w).2) := by
  have hcompiles := compiles_compileFile load disk kind path w
  generalize compileFile load disk kind path w = result at hcompiles ⊢
  cases hcompiles with
  | missing hfind => exact Compiles.eq (.missing hfind)
  | known hfind hknown => exact Compiles.eq (.known hfind hknown)
  | unreadable hfind hnew htext =>
    exact (Compiles.unreadable (w := { w with opened }) hfind hnew htext).eq
  | @compiled canonical text _ hfind hnew htext =>
    have hupdate : ∀ w : Workspace,
        Workspace.updateLibrary { w with opened } kind (·.noteFile canonical) =
          { w.updateLibrary kind (·.noteFile canonical) with opened } := by
      intro w
      cases kind <;> rfl
    have hopened := compileText_opened load kind
      { w with compiled := w.compiled.insert canonical } opened path text
    dsimp only at hopened
    rw [(Compiles.compiled (w := { w with opened }) hfind hnew htext).eq, hopened, hupdate]

/-- What a loader makes of a workspace does not depend on the definitions that are open. -/
theorem loader_opened (n : Nat) (name : String) :
    loader disk n kind name { w with opened } =
      ({ (loader disk n kind name w).1 with opened }, (loader disk n kind name w).2) := by
  cases n with
  | zero => rfl
  | succ n =>
    have hloads := loads_loader disk n kind name w
    generalize loader disk (n + 1) kind name w = result at hloads ⊢
    cases hloads with
    | standard hname => exact Loads.eq (.standard hname)
    | missing hname hpath => exact Loads.eq (.missing hname hpath)
    | found hname hpath =>
      exact (Loads.found (w := { w with opened }) hname hpath).eq.trans
        (compileFile_opened _ _ _ _ _ _)

end Loading

namespace Reader

open Loading (loader loader_opened agrees_loader frames_loader)

variable {k : Nat} {r₁ r₂ : Reader} {src : Source}

/-- A change that has nothing to do with errors already counted is made to both readers. -/
theorem exists_modifyHead {g : Definition → Definition}
    (hg : ∀ d, g (d.charged k) = (g d).charged k) (inner : List Definition) (root : Definition) :
    ∃ inner' root', (inner ++ [root]).modifyHead g = inner' ++ [root'] ∧
      (inner ++ [root.charged k]).modifyHead g = inner' ++ [root'.charged k] := by
  cases inner with
  | nil => exact ⟨[], g root, rfl, congrArg (fun d => [d]) (hg root)⟩
  | cons d rest => exact ⟨g d :: rest, root, rfl, rfl⟩

/-- A mild change has nothing to do with additional errors. -/
theorem charged_of_mild {file : String} {line : List Token} {g : Definition → Definition}
    (hg : Mild file line g) (d : Definition) : g (d.charged k) = (g d).charged k := by
  refine Definition.eq_of_uncounted ?_ ?_
  · show (g (d.charged k)).uncounted = (g d).uncounted
    rw [hg.uncounted, hg.uncounted d]
    rfl
  · rw [hg.errors]
    show d.errors + k = (g d).errors + k
    rw [hg.errors]

/-- Counting an error has nothing to do with additional errors. -/
theorem charged_countError (d : Definition) :
    countError (d.charged k) = (countError d).charged k := by
  show { d with errors := d.errors + k + 1 } = { d with errors := d.errors + 1 + k }
  rw [Nat.add_right_comm]

/-- With nothing open, a change of the innermost definition cannot be seen. -/
theorem bare_modifyCurrent (r : Reader) (g : Definition → Definition) :
    (r.modifyCurrent g).bare = r.bare := by
  rw [modifyCurrent_eq]
  rfl

/-- With nothing reported, a finding cannot be seen. -/
theorem bare_report (r : Reader) (f : Finding) : (r.report f).bare = r.bare := by
  rw [report_eq]
  rfl

/-- Readers of which one is ahead have the rest in common. -/
theorem Ahead.same (h : r₁.Ahead k r₂) :
    r₁.work.settings = r₂.work.settings ∧ r₁.work.forest = r₂.work.forest ∧
      r₁.work.user = r₂.work.user ∧ r₁.work.builtin = r₂.work.builtin ∧
      r₁.work.compiled = r₂.work.compiled ∧ r₁.skipDepth = r₂.skipDepth ∧ r₁.ended = r₂.ended := by
  have hbare := h.bare
  injection hbare with hwork hskip hended
  injection hwork with hsettings hforest _ huser hbuiltin hcompiled
  exact ⟨hsettings, hforest, huser, hbuiltin, hcompiled, hskip, hended⟩

/-- The second reader stays ahead behind a change that has nothing to do with errors. -/
theorem Ahead.modifyCurrent (h : r₁.Ahead k r₂) {g : Definition → Definition}
    (hg : ∀ d, g (d.charged k) = (g d).charged k) :
    (r₁.modifyCurrent g).Ahead k (r₂.modifyCurrent g) where
  bare := by
    rw [bare_modifyCurrent, bare_modifyCurrent]
    exact h.bare
  errors := by
    rw [modifyCurrent_eq, modifyCurrent_eq]
    exact h.errors
  opened := by
    obtain ⟨inner, root, hopened₁, hopened₂⟩ := h.opened
    rw [modifyCurrent_eq, modifyCurrent_eq, hopened₁, hopened₂]
    exact exists_modifyHead hg inner root

/-- The second reader stays ahead behind a finding that both of them report. -/
theorem Ahead.report (h : r₁.Ahead k r₂) (f : Finding) :
    (r₁.report f).Ahead k (r₂.report f) where
  bare := by
    rw [bare_report, bare_report]
    exact h.bare
  errors := by
    rw [report_eq, report_eq]
    show r₂.errors + _ = r₁.errors + _ + k
    rw [h.errors, Nat.add_right_comm]
  opened := by
    obtain ⟨inner, root, hopened₁, hopened₂⟩ := h.opened
    rw [report_eq, report_eq]
    dsimp only
    cases f.isError with
    | true =>
      rw [if_pos rfl, if_pos rfl, hopened₁, hopened₂]
      exact exists_modifyHead charged_countError inner root
    | false => exact ⟨inner, root, hopened₁, hopened₂⟩

/-- The second reader stays ahead when both close a definition other than the outermost. -/
theorem Ahead.close (h : r₁.Ahead k r₂) (hdeep : 1 < r₁.work.opened.length) :
    r₁.close.Ahead k r₂.close := by
  obtain ⟨inner, root, hopened₁, hopened₂⟩ := h.opened
  obtain ⟨-, hforest, -⟩ := h.same
  cases inner with
  | nil =>
    rw [hopened₁] at hdeep
    exact absurd hdeep (by simp)
  | cons d inner =>
    have hinner : Ahead k { r₁ with work := { r₁.work with opened := inner ++ [root] } }
        { r₂ with work := { r₂.work with opened := inner ++ [root.charged k] } } :=
      ⟨h.bare, h.errors, inner, root, rfl, rfl⟩
    cases hcontains : r₁.work.forest.contains d.path with
    | true =>
      rw [close_of_contains hopened₁ hcontains, close_of_contains hopened₂ (hforest ▸ hcontains)]
      exact hinner.report _
    | false =>
      have hadded : Ahead k
          { r₁ with work := { r₁.work with
              opened := inner ++ [root], forest := r₁.work.forest.insert d.path d } }
          { r₂ with work := { r₂.work with
              opened := inner ++ [root.charged k], forest := r₂.work.forest.insert d.path d } } :=
        ⟨congrArg (fun r : Reader =>
          { r with work := { r.work with forest := r.work.forest.insert d.path d } }) h.bare,
          h.errors, inner, root, rfl, rfl⟩
      rw [close_of_not_contains hopened₁ hcontains,
        close_of_not_contains hopened₂ (hforest ▸ hcontains)]
      exact hadded.modifyCurrent fun _ => rfl

/-- The second reader stays ahead when both load the same library. -/
theorem Ahead.loaded (h : r₁.Ahead k r₂) (disk : Disk) (n : Nat) (t : Token) :
    (r₁.loaded src (loader disk n) t).Ahead k (r₂.loaded src (loader disk n) t) := by
  have hwork : Workspace.unheard { r₁.work with opened := r₂.work.opened } =
      r₂.work.unheard := by
    obtain ⟨hsettings, hforest, huser, hbuiltin, hcompiled, -⟩ := h.same
    exact Workspace.unheard_congr hsettings hforest rfl huser hbuiltin hcompiled
  obtain ⟨hsame, hproblem⟩ := agrees_loader disk n src.libraryKind t.text _ _ hwork
  have hopened₁ := (frames_loader disk n).opened src.libraryKind t.text r₁.work
  have hopened₂ := (frames_loader disk n).opened src.libraryKind t.text r₂.work
  rw [loader_opened] at hsame hproblem
  unfold Reader.loaded
  revert hsame hproblem hopened₁ hopened₂
  generalize loader disk n src.libraryKind t.text r₁.work = result₁
  generalize loader disk n src.libraryKind t.text r₂.work = result₂
  obtain ⟨work₁, problem₁⟩ := result₁
  obtain ⟨work₂, problem₂⟩ := result₂
  intro hsame hproblem hopened₁ hopened₂
  have hahead : Ahead k { r₁ with work := work₁ } { r₂ with work := work₂ } := by
    obtain ⟨-, -, -, -, -, hskip, hended⟩ := h.same
    refine ⟨?_, h.errors, ?_⟩
    · have hbare : work₁.shut = work₂.shut :=
        congrArg (fun w : Workspace => { w with opened := [] }) hsame
      show ({ r₁ with work := work₁.shut, errors := 0 } : Reader) =
        { r₂ with work := work₂.shut, errors := 0 }
      rw [hbare, hskip, hended]
    · obtain ⟨inner, root, hinner₁, hinner₂⟩ := h.opened
      exact ⟨inner, root, hopened₁.trans hinner₁, hopened₂.trans hinner₂⟩
  change problem₁ = problem₂ at hproblem
  subst hproblem
  cases problem₁ with
  | none => exact hahead
  | some problem => exact hahead.report _

/-- Errors counted beforehand do not matter for what is done to a reader. -/
theorem simulation_ahead (disk : Disk) (n : Nat) (src : Source) (k : Nat) :
    Simulation src (loader disk n) (loader disk n) (Ahead k) where
  view := by
    intro r₁ r₂ h
    obtain ⟨inner, root, hopened₁, hopened₂⟩ := h.opened
    obtain ⟨-, -, -, -, -, hskip, -⟩ := h.same
    unfold view
    rw [hopened₁, hopened₂, List.map_append, List.map_append, hskip]
    rfl
  ended := fun h => h.same.2.2.2.2.2.2
  opened := by
    intro r₁ r₂ h
    obtain ⟨inner, root, hopened₁, -⟩ := h.opened
    rw [hopened₁, List.length_append]
    exact Nat.succ_pos _
  report := fun f h _ => h.report f
  change := fun h _ hg => h.modifyCurrent (charged_of_mild hg)
  opens := by
    intro r₁ r₂ first name heading h _ _
    obtain ⟨inner, root, hopened₁, hopened₂⟩ := h.opened
    exact ⟨h.bare, h.errors, opening src r₁.view first name heading :: inner, root,
      congrArg (_ :: ·) hopened₁, congrArg (_ :: ·) hopened₂⟩
  closes := fun h hdeep => h.close hdeep
  load := fun h _ => h.loaded disk n _
  skipTo := fun depth h =>
    ⟨congrArg (fun r : Reader => { r with skipDepth := depth }) h.bare, h.errors, h.opened⟩
  stop := fun h => ⟨congrArg readEnd h.bare, h.errors, h.opened⟩

/-! ## Faults behind the end command -/

/-- Errors found in the outermost definition are counted there. -/
theorem reportAll_errors {r : Reader} {root : Definition} (hopened : r.work.opened = [root])
    (fs : List Finding) (hfs : ∀ f ∈ fs, f.isError = true) :
    (r.reportAll fs).bare = r.bare ∧ (r.reportAll fs).errors = r.errors + fs.length ∧
      (r.reportAll fs).work.opened = [root.charged fs.length] := by
  induction fs generalizing r root with
  | nil => exact ⟨rfl, rfl, hopened⟩
  | cons f rest ih =>
    obtain ⟨hf, hrest⟩ := List.forall_mem_cons.1 hfs
    have hreport : (r.report f).work.opened = [root.charged 1] := by
      rw [report_eq, hf, if_pos rfl, hopened]
      rfl
    have herrors : (r.report f).errors = r.errors + 1 := by
      rw [report_eq, hf]
      rfl
    obtain ⟨hbare, herrors', hopened'⟩ := ih hreport hrest
    refine ⟨hbare.trans (bare_report r f), ?_, ?_⟩
    · show ((r.report f).reportAll rest).errors = _
      rw [herrors', herrors, List.length_cons]
      omega
    · show ((r.report f).reportAll rest).work.opened = _
      rw [hopened', List.length_cons, Definition.charged_charged, Nat.add_comm]

/-- A text of which more faults are known at the beginning is ahead of another one. -/
theorem ahead_reportAll {root : Definition} (hbare : r₁.bare = r₂.bare)
    (herrors : r₁.errors = r₂.errors) (hopened₁ : r₁.work.opened = [root])
    (hopened₂ : r₂.work.opened = [root]) {fs₁ fs₂ : List Finding}
    (hfs₁ : ∀ f ∈ fs₁, f.isError = true) (hfs₂ : ∀ f ∈ fs₂, f.isError = true)
    (hlength : fs₂.length = fs₁.length + k) : (r₁.reportAll fs₁).Ahead k (r₂.reportAll fs₂) := by
  obtain ⟨hbare₁, herrors₁, hopen₁⟩ := reportAll_errors hopened₁ fs₁ hfs₁
  obtain ⟨hbare₂, herrors₂, hopen₂⟩ := reportAll_errors hopened₂ fs₂ hfs₂
  refine ⟨hbare₁.trans (hbare.trans hbare₂.symm), ?_, [], root.charged fs₁.length, hopen₁, ?_⟩
  · rw [herrors₂, herrors₁, herrors, hlength, Nat.add_assoc]
  · rw [hopen₂, hlength, Definition.charged_charged]
    rfl

/-- All faults of a text are errors. -/
theorem isError_faults (file text : String) : ∀ f ∈ faults file text, f.isError = true := by
  intro f hf
  obtain ⟨fault, hfault, rfl⟩ := List.mem_map.1 hf
  have hseverity := Tokenized.severity_of_mem_faults fault hfault
  show (fault.problem.severity == .error) = true
  rw [hseverity]
  rfl

/-- The lines behind the end command are not read. -/
theorem readAll_behind_end (load : Loader) (src : Source) {text : String}
    (h : (tokenize text).Ended) (behind : String) (r : Reader) :
    r.readAll src load (tokenize (text ++ "\n" ++ behind)).lines =
      r.readAll src load (tokenize text).lines := by
  obtain ⟨⟨earlier, last, more, later, hlines, hlines'⟩, -⟩ :=
    Tokenized.tokenize_append h.lines_ne_nil behind
  have hends : Tokenized.Ends (earlier ++ [last]).tail := by
    rw [← hlines]
    exact h
  rw [hlines', hlines]
  cases earlier with
  | nil =>
    obtain ⟨line, hline, -⟩ := hends
    exact absurd hline List.not_mem_nil
  | cons title earlier =>
    have hcut := Tokenized.upToEnd_append hends more later
    show (r.readTitle src load title).readLines src load (earlier ++ (last ++ more) :: later) =
      (r.readTitle src load title).readLines src load (earlier ++ [last])
    rw [← readLines_upToEnd, hcut, readLines_upToEnd]

/-- At the beginning nothing is seen of a text. -/
theorem bare_initial (src : Source) (path text : String) (w : Workspace) :
    (initial src path text w).bare = ⟨w.shut, 0, false, 0⟩ := by
  unfold Reader.bare initial Workspace.shut
  rfl

/-- A text behind the end command does to a reader what its faults do. -/
theorem ahead_ofText (disk : Disk) (n : Nat) (src : Source) (path : String) {text : String}
    (h : (tokenize text).Ended) (behind : String) {w : Workspace} (hw : w.opened = []) :
    (ofText (loader disk n) src path text w).Ahead (Tokenized.faultsBehindTitle behind).length
      (ofText (loader disk n) src path (text ++ "\n" ++ behind) w) := by
  have hsim := simulation_ahead disk n src (Tokenized.faultsBehindTitle behind).length
  have hbare : ∀ text text' : String,
      (initial src path text w).bare = (initial src path text' w).bare := fun _ _ =>
    (bare_initial _ _ _ _).trans (bare_initial _ _ _ _).symm
  have herrors : ∀ text text' : String,
      (initial src path text w).errors = (initial src path text' w).errors := fun _ _ => rfl
  have hopened : ∀ text : String, (initial src path text w).work.opened =
      [Definition.blank (src.rootName path) path "" (some ⟨src.file, 1, 1⟩)] := fun _ =>
    congrArg (_ :: ·) hw
  have hmore : (faults src.file (text ++ "\n" ++ behind)).length =
      (faults src.file text).length + (Tokenized.faultsBehindTitle behind).length := by
    obtain ⟨-, hfaults⟩ := Tokenized.tokenize_append h.lines_ne_nil behind
    unfold faults
    rw [List.length_map, List.length_map, hfaults]
  have hstart : Ahead (Tokenized.faultsBehindTitle behind).length
      ((initial src path text w).reportAll (faults src.file text))
      ((initial src path (text ++ "\n" ++ behind) w).reportAll
        (faults src.file (text ++ "\n" ++ behind))) :=
    ahead_reportAll (hbare _ _) (herrors _ _) (hopened _) (hopened _) (isError_faults _ _)
      (isError_faults _ _) hmore
  unfold ofText readText
  rw [readAll_behind_end _ _ h]
  exact hsim.closeAll (hsim.readAll hstart Tokenized.named_of_mem_lines)

namespace Ahead

variable (h : r₁.Ahead k r₂) (hwhole₁ : r₁.OfWholeNetlist) (hwhole₂ : r₂.OfWholeNetlist)

include h hwhole₁ hwhole₂

/-- Two netlists of which one is ahead of the other leave the same definitions, but for the errors
that are counted in the netlist itself. -/
theorem exists_settle_eq : ∃ root, r₁.work.forest[""]? = none ∧
    r₁.settle.work = { r₁.work with opened := [], forest := r₁.work.forest.insert "" root } ∧
    r₂.settle.work =
      { r₂.work with opened := [], forest := r₁.work.forest.insert "" (root.charged k) } := by
  obtain ⟨root, hopened₁, hnone, hsettle₁⟩ := hwhole₁.settle_eq
  obtain ⟨root', hopened₂, -, hsettle₂⟩ := hwhole₂.settle_eq
  obtain ⟨inner, root'', hinner₁, hinner₂⟩ := h.opened
  obtain ⟨-, hforest, -, -, -, -, -⟩ := h.same
  rw [hopened₁] at hinner₁
  rw [hopened₂] at hinner₂
  cases inner with
  | nil =>
    obtain ⟨rfl, -⟩ := List.cons.inj hinner₁
    obtain ⟨rfl, -⟩ := List.cons.inj hinner₂
    rw [← hforest] at hsettle₂
    exact ⟨root, hnone, hsettle₁, hsettle₂⟩
  | cons d rest => exact absurd (congrArg List.length hinner₁) (by simp)

/-- Without additional errors both readers settle to the same, but for what has been reported. -/
theorem unheard_settle (hk : k = 0) : r₂.settle.work.unheard = r₁.settle.work.unheard := by
  obtain ⟨root, -, hsettle₁, hsettle₂⟩ := h.exists_settle_eq hwhole₁ hwhole₂
  obtain ⟨hsettings, -, huser, hbuiltin, hcompiled, -, -⟩ := h.same
  subst hk
  rw [hsettle₁, hsettle₂]
  exact Workspace.unheard_congr hsettings.symm rfl rfl huser.symm hbuiltin.symm hcompiled.symm

/-- When the text is settled, its additional errors are counted in the forest. -/
theorem forestErrors_settle :
    r₂.settle.work.forestErrors = r₁.settle.work.forestErrors + k := by
  obtain ⟨root, hnone, hsettle₁, hsettle₂⟩ := h.exists_settle_eq hwhole₁ hwhole₂
  rw [hsettle₁, hsettle₂]
  show Forest.errors (r₁.work.forest.insert "" (root.charged k)) =
    Forest.errors (r₁.work.forest.insert "" root) + k
  rw [Forest.errors_insert hnone, Forest.errors_insert hnone]
  show root.errors + k + _ = _
  omega

/-- A circuit that stops short differs by the number of additional errors. -/
theorem stopped_settle : r₂.settle.work.stopped =
    { r₁.settle.work.stopped with errors := r₁.settle.work.forestErrors + k } := by
  have herrors := h.forestErrors_settle hwhole₁ hwhole₂
  obtain ⟨root, -, hsettle₁, hsettle₂⟩ := h.exists_settle_eq hwhole₁ hwhole₂
  unfold Workspace.stopped
  rw [herrors, hsettle₁, hsettle₂, Std.ExtTreeMap.getElem?_insert_self,
    Std.ExtTreeMap.getElem?_insert_self]
  rfl

end Ahead

end Reader

namespace Workspace

variable (w : Workspace) (disk : Disk) (label : String) {text : String}

/-- The circuit of a netlist with text behind its end command: without faults in that text it is
the circuit of the netlist, and otherwise compilation stops with that many errors more. -/
theorem circuit_behind_end (h : (tokenize text).Ended) (behind : String) :
    (w.compile disk label (text ++ "\n" ++ behind)).2 =
      if Tokenized.faultsBehindTitle behind = [] then (w.compile disk label text).2
      else
        { (w.readNetlist disk label text).stopped with
          errors := (w.readNetlist disk label text).forestErrors +
            (Tokenized.faultsBehindTitle behind).length } := by
  have hloader := Loading.frames_loader disk (disk.objects.size + 1)
  have hahead : (w.readerWith disk.loader label text).Ahead
      (Tokenized.faultsBehindTitle behind).length
      (w.readerWith disk.loader label (text ++ "\n" ++ behind)) :=
    Reader.ahead_ofText disk _ ⟨label, .netlist⟩ "" h behind rfl
  have hwhole₁ := w.ofWholeNetlist_readerWith hloader label text
  have hwhole₂ := w.ofWholeNetlist_readerWith hloader label (text ++ "\n" ++ behind)
  rw [compile_eq, compile_eq, readNetlist_eq, readNetlist_eq]
  split
  · rename_i hnil
    exact (finishNetlist_congr
      (hahead.unheard_settle hwhole₁ hwhole₂ (List.length_eq_zero_iff.2 hnil))).2.1
  · rename_i hfaults
    have herrors := hahead.forestErrors_settle hwhole₁ hwhole₂
    have hsome := List.length_pos_iff.2 hfaults
    unfold finishNetlist
    rw [if_pos (by omega)]
    exact hahead.stopped_settle hwhole₁ hwhole₂

/-- The circuit does not depend on the text behind the given one. -/
def CutsOff (text : String) : Prop :=
  ∀ behind behind' : String, (w.compile disk label (text ++ "\n" ++ behind)).2 =
    (w.compile disk label (text ++ "\n" ++ behind')).2

/-- Behind the end command nothing but the number of faults matters: texts with as many faults give
the same circuit, and that of the text up to the end command if there are none.  If that one is
accepted, the faults are all the errors of the circuit. -/
theorem faults_behind_end (h : (tokenize text).Ended) :
    (∀ behind behind' : String,
      (Tokenized.faultsBehindTitle behind).length =
          (Tokenized.faultsBehindTitle behind').length →
        (w.compile disk label (text ++ "\n" ++ behind)).2 =
          (w.compile disk label (text ++ "\n" ++ behind')).2) ∧
    (∀ behind : String, Tokenized.faultsBehindTitle behind = [] →
      (w.compile disk label (text ++ "\n" ++ behind)).2 = (w.compile disk label text).2) ∧
    ((w.compile disk label text).2.errors = 0 → ∀ behind : String,
      (w.compile disk label (text ++ "\n" ++ behind)).2.errors =
        (Tokenized.faultsBehindTitle behind).length) := by
  refine ⟨fun behind behind' hlength => ?_, fun behind hnil => ?_, fun haccepted behind => ?_⟩
  · rw [w.circuit_behind_end disk label h, w.circuit_behind_end disk label h]
    by_cases hnil : Tokenized.faultsBehindTitle behind = []
    · have hnil' : Tokenized.faultsBehindTitle behind' = [] := by
        rw [hnil] at hlength
        exact List.length_eq_zero_iff.1 hlength.symm
      rw [if_pos hnil, if_pos hnil']
    · have hnil' : Tokenized.faultsBehindTitle behind' ≠ [] := by
        intro hnil'
        rw [hnil'] at hlength
        exact hnil (List.length_eq_zero_iff.1 hlength)
      rw [if_neg hnil, if_neg hnil', hlength]
  · rw [w.circuit_behind_end disk label h, if_pos hnil]
  · have hread : (w.readNetlist disk label text).forestErrors = 0 := by
      rw [compile_eq, errors_finishNetlist] at haccepted
      omega
    rw [w.circuit_behind_end disk label h]
    split
    · rename_i hnil
      rw [haccepted, hnil]
      rfl
    · show (w.readNetlist disk label text).forestErrors + _ = _
      rw [hread, Nat.zero_add]

/-- A netlist of one resistor that ends with its end command. -/
def endedText : String := "t\nR1 1 0 1\n.end"

set_option maxRecDepth 100000 in
/-- The netlist of one resistor is accepted. -/
theorem accepted_endedText :
    (standard.compile Disk.empty "main.cir" endedText).2.errors = 0 := by
  refine errors_compile_eq_zero ?_ ?_ ?_
  · decide +kernel
  · decide +kernel
  · exact contains_connectedNodes_flatten "R1" groundNode (by decide +kernel) (by decide +kernel)

/-- An element line behind the end command changes nothing, and a stray character is an error. -/
theorem faults_behind_end_resistor :
    (tokenize endedText).Ended ∧
      (standard.compile Disk.empty "main.cir" (endedText ++ "\n" ++ "R2 x")).2 =
        (standard.compile Disk.empty "main.cir" endedText).2 ∧
      (standard.compile Disk.empty "main.cir" (endedText ++ "\n" ++ "@")).2.errors = 1 := by
  have hended : (tokenize endedText).Ended := by decide +kernel
  obtain ⟨-, hsame, hcount⟩ := faults_behind_end standard Disk.empty "main.cir" hended
  refine ⟨hended, hsame "R2 x" (by decide +kernel), ?_⟩
  rw [hcount accepted_endedText]
  decide +kernel

/-- A stray character behind the end command is an error of the netlist. -/
theorem not_cutsOff_stray :
    standard.Reachable ∧ (tokenize endedText).Ended ∧
      ¬standard.CutsOff Disk.empty "main.cir" endedText := by
  have hended : (tokenize endedText).Ended := by decide +kernel
  refine ⟨reachable_standard, hended, fun h => ?_⟩
  have herrors := congrArg Circuit.errors (h "" "@")
  rw [standard.circuit_behind_end _ _ hended, standard.circuit_behind_end _ _ hended,
    if_pos (by decide +kernel), if_neg (by decide +kernel), accepted_endedText] at herrors
  exact absurd herrors (by decide +kernel)

end Workspace

end FlatNet
