import FlatNet.Proofs.Reading.Block
import FlatNet.Proofs.Reading.References
import FlatNet.Proofs.Repetition

/-!
# Sub-circuits with a path that is taken

That the path of a sub-circuit is taken is found when the sub-circuit is closed.  The sub-circuits
inside it have been closed by then, and those whose paths were free have entered the forest, where
they stay.  So dropping the sub-circuit leaves the definitions as they were exactly if the paths
of all sub-circuits inside it are taken as well.
-/

set_option autoImplicit false

namespace FlatNet

/-! ## Paths of a block -/

/-- The paths of the sub-circuits that a reader takes from a body, in the order in which they are
closed, when it is inside a definition with the path `parent` and sub-circuits of the given names
are open.  Sub-circuits that it rejects are not among them, nor are those inside. -/
def Body.paths (parent : String) (names : List String) : Body → List String
  | nil => []
  | line _ _ rest => rest.paths parent names
  | block head _ inner _ _ rest =>
    (match openedName? head with
      | none => []
      | some name =>
        if name ∈ names then []
        else inner.paths (Scope.child parent name) (name :: names) ++ [Scope.child parent name]) ++
      rest.paths parent names

/-- The paths of the sub-circuits that a reader takes from a block. -/
def Block.paths (parent : String) (names : List String) (b : Block) : List String :=
  match openedName? b.head with
  | none => []
  | some name =>
    if name ∈ names then []
    else b.body.paths (Scope.child parent name) (name :: names) ++ [Scope.child parent name]

section Block

variable (head : List Token) (hhead : nesting head = .opening) (inner : Body) (tail : List Token)
  (htail : nesting tail = .closing) (rest : Body)

/-- The lines of a block in a body stand before those of the rest. -/
theorem Body.lines_block :
    (Body.block head hhead inner tail htail rest).lines =
      (Block.mk head hhead inner tail htail).lines ++ rest.lines := by
  show head :: (inner.lines ++ tail :: rest.lines) =
    (head :: (inner.lines ++ [tail])) ++ rest.lines
  rw [List.cons_append, List.append_assoc, List.singleton_append]

/-- The paths that a block in a body takes come before those of the rest. -/
theorem Body.paths_block (parent : String) (names : List String) :
    (Body.block head hhead inner tail htail rest).paths parent names =
      (Block.mk head hhead inner tail htail).paths parent names ++ rest.paths parent names := rfl

end Block

/-! ## Forests that grow -/

/-- The second forest has what the first one has, and definitions at the given paths. -/
structure Forest.GrowsBy (paths : List String) (forest forest' : Forest) : Prop where
  kept : ∀ (path : String) (d : Definition), forest[path]? = some d → forest'[path]? = some d
  entered : ∀ path : String, forest'.contains path = true ↔
    forest.contains path = true ∨ path ∈ paths

namespace Forest.GrowsBy

variable {paths paths' : List String} {forest forest' forest'' : Forest}

/-- A forest grows to itself by no paths. -/
theorem refl (forest : Forest) : GrowsBy [] forest forest :=
  ⟨fun _ _ hd => hd, fun _ => by simp⟩

/-- A forest that grows twice grows by the paths of both times. -/
theorem trans (h : GrowsBy paths forest forest') (h' : GrowsBy paths' forest' forest'') :
    GrowsBy (paths ++ paths') forest forest'' where
  kept path d hd := h'.kept path d (h.kept path d hd)
  entered path := by rw [h'.entered, h.entered, List.mem_append, or_assoc]

/-- A definition is added if its path is free. -/
theorem insert (forest : Forest) (d : Definition) :
    GrowsBy [d.path] forest
      (if forest.contains d.path then forest else forest.insert d.path d) where
  kept path old hold := by
    split
    · exact hold
    · rename_i hfree
      rw [NameMap.getElem?_insert_of_ne]
      · exact hold
      · rintro rfl
        exact hfree (NameMap.contains_iff.2 ⟨old, hold⟩)
  entered path := by
    rw [List.mem_singleton]
    split
    · rename_i htaken
      constructor
      · exact .inl
      · rintro (hold | rfl)
        · exact hold
        · exact htaken
    · rw [Std.ExtTreeMap.contains_insert, Bool.or_eq_true, beq_iff_eq,
        Std.LawfulEqCmp.compare_eq_iff_eq, or_comm, eq_comm (a := path)]

/-- A forest stays as it is if all paths had been taken before. -/
theorem eq_of_taken (h : GrowsBy paths forest forest')
    (htaken : ∀ path ∈ paths, forest.contains path = true) : forest' = forest := by
  refine Std.ExtTreeMap.ext_getElem? fun path => ?_
  cases hpath : forest[path]? with
  | some d => exact h.kept path d hpath
  | none =>
    refine NameMap.contains_eq_false_iff.1 (Bool.eq_false_iff.2 fun hcontains => ?_)
    have hfree : forest.contains path = false := NameMap.contains_eq_false_iff.2 hpath
    rcases (h.entered path).1 hcontains with hold | hnew
    · rw [hfree] at hold
      exact absurd hold (by simp)
    · rw [htaken path hnew] at hfree
      exact absurd hfree (by simp)

end Forest.GrowsBy

namespace Reader

open Forest (GrowsBy)

/-- The paths of the sub-circuits that the reader takes from a block when it comes to it. -/
def pathsOf (r : Reader) (b : Block) : List String :=
  if r.skipDepth = 0 then b.paths r.current.path r.openNames else []

variable {src : Source} {load : Loader} {r r' r'' : Reader} {paths paths' : List String}

/-! ## Reading a body -/

/-- A change of the innermost definition keeps its name and its path. -/
structure Tame (g : Definition → Definition) : Prop where
  name : ∀ d, (g d).name = d.name
  path : ∀ d, (g d).path = d.path

/-- From the first reader to the second one sub-circuits with the given paths have been read inside
the innermost definition that is open. -/
structure Enters (paths : List String) (r r' : Reader) : Prop where
  skipDepth : r'.skipDepth = r.skipDepth
  ended : r'.ended = r.ended
  nonempty : r.work.opened ≠ []
  opened : ∃ g, Tame g ∧ r'.work.opened = r.work.opened.modifyHead g
  forest : GrowsBy paths r.work.forest r'.work.forest

namespace Enters

/-- The innermost definition before and behind, and those around it. -/
theorem exists_opened (h : Enters paths r r') :
    ∃ d d' around, r.work.opened = d :: around ∧ r'.work.opened = d' :: around ∧
      d'.name = d.name ∧ d'.path = d.path := by
  obtain ⟨d, around, hopened⟩ := List.exists_cons_of_ne_nil h.nonempty
  obtain ⟨g, hg, hopened'⟩ := h.opened
  exact ⟨d, g d, around, hopened, by rw [hopened', hopened]; rfl, hg.name d, hg.path d⟩

/-- Behind sub-circuits that have been read a definition is open as before. -/
theorem nonempty_behind (h : Enters paths r r') : r'.work.opened ≠ [] := by
  obtain ⟨d, d', around, -, hopened, -, -⟩ := h.exists_opened
  rw [hopened]
  exact List.cons_ne_nil _ _

/-- Behind sub-circuits that have been read the innermost definition is the one of before. -/
theorem path_current (h : Enters paths r r') : r'.current.path = r.current.path := by
  obtain ⟨d, d', around, hopened, hopened', -, hpath⟩ := h.exists_opened
  unfold current
  rw [hopened, hopened']
  exact hpath

/-- Behind sub-circuits that have been read the same names are open. -/
theorem openNames (h : Enters paths r r') : r'.openNames = r.openNames := by
  obtain ⟨d, d', around, hopened, hopened', hname, -⟩ := h.exists_opened
  unfold Reader.openNames
  rw [hopened, hopened']
  cases around with
  | nil => rfl
  | cons outer rest =>
    rw [List.dropLast_cons_cons, List.dropLast_cons_cons, List.map_cons, List.map_cons, hname]

/-- Sub-circuits that are read in two parts have the paths of both parts. -/
theorem trans (h : Enters paths r r') (h' : Enters paths' r' r'') :
    Enters (paths ++ paths') r r'' where
  skipDepth := h'.skipDepth.trans h.skipDepth
  ended := h'.ended.trans h.ended
  nonempty := h.nonempty
  opened := by
    obtain ⟨g, hg, hopened⟩ := h.opened
    obtain ⟨g', hg', hopened'⟩ := h'.opened
    refine ⟨g' ∘ g, ⟨fun d => (hg'.name _).trans (hg.name d),
      fun d => (hg'.path _).trans (hg.path d)⟩, ?_⟩
    rw [hopened', hopened, List.modifyHead_modifyHead]
  forest := h.forest.trans h'.forest

end Enters

/-- A tame change of the innermost definition enters no path. -/
theorem enters_modifyCurrent (hopened : r.work.opened ≠ []) {g : Definition → Definition}
    (hg : Tame g) : Enters [] r (r.modifyCurrent g) := by
  rw [modifyCurrent_eq]
  exact ⟨rfl, rfl, hopened, ⟨g, hg, rfl⟩, .refl _⟩

/-- A finding enters no path. -/
theorem enters_report (hopened : r.work.opened ≠ []) (f : Finding) :
    Enters [] r (r.report f) := by
  rw [report_eq]
  refine ⟨rfl, rfl, hopened, ?_, .refl _⟩
  cases f.isError with
  | false => exact ⟨id, ⟨fun _ => rfl, fun _ => rfl⟩, congrFun List.modifyHead_id.symm _⟩
  | true => exact ⟨countError, ⟨fun _ => rfl, fun _ => rfl⟩, rfl⟩

/-- Doing nothing enters no path. -/
theorem enters_refl (hopened : r.work.opened ≠ []) : Enters [] r r :=
  ⟨rfl, rfl, hopened, ⟨id, ⟨fun _ => rfl, fun _ => rfl⟩, congrFun List.modifyHead_id.symm _⟩,
    .refl _⟩

/-- Findings enter no path. -/
theorem enters_reportAll (hopened : r.work.opened ≠ []) (fs : List Finding) :
    Enters [] r (r.reportAll fs) := by
  induction fs generalizing r with
  | nil => exact enters_refl hopened
  | cons f rest ih =>
    have hf := enters_report hopened f
    exact hf.trans (ih hf.nonempty_behind)

/-- A line that neither opens nor closes a sub-circuit, and names no library, reads none. -/
theorem enters_readLine (src : Source) (load : Loader) (hreads : r.skipDepth = 0)
    (hopened : r.work.opened ≠ []) {line : List Token} (hline : nesting line = .plain)
    (hreferences : lineReferences line = []) :
    Enters [] r (r.readLine src load line) := by
  rw [readLine_eq]
  have hload : ∀ t, Action.load t ∉ actions src r.view line := load_not_mem_actions hreferences
  have hshape := lineShape_actions src r.view line
  revert hshape hload
  generalize actions src r.view line = as
  intro hload hshape
  have hne : ∀ {first : Token} {bracket : Bracket}, first.bracket = .plain →
      first.bracket = bracket → bracket ≠ .plain → False :=
    fun hplain hbracket hne => hne (hbracket.symm.trans hplain)
  have hskips : ¬ 0 < r.view.skipDepth := by
    show ¬ 0 < r.skipDepth
    omega
  cases hshape with
  | blank => exact enters_refl hopened
  | inner _ _ has =>
    exact performAll_of_inner load (fun f h => h.trans (enters_report h.nonempty_behind f))
      (fun hg h => h.trans (enters_modifyCurrent h.nonempty_behind ⟨hg.name, hg.path⟩)) has hload
      (enters_refl hopened)
  | opens _ hfirst _ _ => exact (hne hline hfirst (by decide)).elim
  | rejects _ hfirst _ => exact (hne hline hfirst (by decide)).elim
  | closes _ hfirst _ => exact (hne hline hfirst (by decide)).elim
  | unmatched _ hfirst _ _ => exact (hne hline hfirst (by decide)).elim
  | stops hfirst => exact (hne hline hfirst (by decide)).elim
  | skips hpos _ => exact absurd hpos hskips
  | deeper hpos _ => exact absurd hpos hskips
  | shallower hpos _ => exact absurd hpos hskips

/-! ### Closing -/

/-- Closing a definition changes the one around it, but not its name and path. -/
theorem exists_opened_close {d : Definition} {around : List Definition}
    (hopened : r.work.opened = d :: around) :
    r.close.skipDepth = r.skipDepth ∧ r.close.ended = r.ended ∧
      ∃ g, Tame g ∧ r.close.work.opened = around.modifyHead g := by
  cases hcontains : r.work.forest.contains d.path with
  | true =>
    rw [close_of_contains hopened hcontains, report_eq]
    exact ⟨rfl, rfl, countError, ⟨fun _ => rfl, fun _ => rfl⟩, rfl⟩
  | false =>
    rw [close_of_not_contains hopened hcontains, modifyCurrent_eq]
    exact ⟨rfl, rfl, fun parent => { parent with subcircuits := parent.subcircuits ++ [d.name] },
      ⟨fun _ => rfl, fun _ => rfl⟩, rfl⟩

/-- A sub-circuit that is closed has entered the forest, or its path had been taken before. -/
theorem Enters.close {d : Definition} (hopened : r.work.opened ≠ [])
    (h : Enters paths (r.push d) r') : Enters (paths ++ [d.path]) r r'.close := by
  obtain ⟨e, d', around, hpushed, hopened', -, hpath⟩ := h.exists_opened
  obtain ⟨rfl, rfl⟩ := List.cons.inj hpushed
  obtain ⟨hskip, hended, hclose⟩ := exists_opened_close hopened'
  refine ⟨hskip.trans h.skipDepth, hended.trans h.ended, hopened, hclose, ?_⟩
  rw [forest_close r' hopened', ← hpath]
  exact h.forest.trans (.insert _ d')

/-! ### Blocks and bodies -/

/-- The first line of a sub-circuit that is not rejected opens it. -/
theorem readLine_of_not_rejected (src : Source) (load : Loader) (hreads : r.skipDepth = 0)
    {head : List Token} (hhead : nesting head = .opening) {name : String}
    (hname : openedName? head = some name) (hfresh : name ∉ r.openNames) :
    ∃ (d : Definition) (fs : List Finding), d.name = name ∧
      d.path = Scope.child r.current.path name ∧
      r.readLine src load head = (r.push d).reportAll fs := by
  cases head with
  | nil => exact absurd hhead (by decide)
  | cons first rest =>
    cases rest with
    | nil => exact absurd hname (by unfold openedName?; simp)
    | cons token args =>
      unfold openedName? at hname
      dsimp only at hname
      split at hname
      · rename_i hidentifier
        have hname := Option.some.inj hname
        rw [readLine_of_opening hreads _ hhead]
        unfold readSubckt
        dsimp only
        rw [hidentifier, any_openNames, hname, if_neg (by simp),
          if_neg (by rw [decide_eq_true_iff]; exact hfresh)]
        exact ⟨_, _, rfl, rfl, rfl⟩
      · exact absurd hname (by simp)

/-- What reading a block comes to, if its body is read as its paths say. -/
theorem exists_close_of_not_rejected (b : Block) (hended : r.ended = false)
    (hreads : r.skipDepth = 0) (hopened : r.work.opened ≠ []) {name : String}
    (hname : openedName? b.head = some name) (hfresh : name ∉ r.openNames)
    (hbody : ∀ r : Reader, r.ended = false → r.skipDepth = 0 → r.work.opened ≠ [] →
      Enters (b.body.paths r.current.path r.openNames) r (r.readLines src load b.body.lines)) :
    ∃ (d : Definition) (inside : Reader), d.path = Scope.child r.current.path name ∧
      Enters (b.body.paths (Scope.child r.current.path name) (name :: r.openNames)) (r.push d)
        inside ∧
      r.readLines src load b.lines = inside.close := by
  obtain ⟨d, fs, hdname, hdpath, hhead⟩ :=
    readLine_of_not_rejected src load hreads b.hhead hname hfresh
  have hpushed : (r.push d).work.opened ≠ [] := List.cons_ne_nil _ _
  have hstart := enters_reportAll hpushed fs
  have hpath : ((r.push d).reportAll fs).current.path = Scope.child r.current.path name := by
    rw [hstart.path_current, ← hdpath]
    rfl
  have hnames : ((r.push d).reportAll fs).openNames = name :: r.openNames := by
    rw [hstart.openNames, ← hdname]
    unfold Reader.openNames push
    obtain ⟨e, around, heq⟩ := List.exists_cons_of_ne_nil hopened
    rw [heq]
    rfl
  have hinner := hbody _ (hstart.ended.trans hended) (hstart.skipDepth.trans hreads)
    hstart.nonempty_behind
  rw [hpath, hnames] at hinner
  have hinside := hstart.trans hinner
  refine ⟨d, _, hdpath, hinside, ?_⟩
  have hended' : (((r.push d).reportAll fs).readLines src load b.body.lines).ended = false :=
    hinside.ended.trans hended
  have hdeep :
      1 < (((r.push d).reportAll fs).readLines src load b.body.lines).work.opened.length := by
    obtain ⟨g, -, hopened'⟩ := hinside.opened
    rw [hopened', List.length_modifyHead]
    exact Nat.succ_lt_succ (List.length_pos_iff.2 hopened)
  unfold Block.lines
  rw [readLines_cons hended, hhead, readLines_append, readLines_cons hended']
  obtain ⟨first, rest, htail⟩ := List.exists_cons_of_ne_nil
    (show b.tail ≠ [] from fun hnil => absurd b.htail (by rw [hnil]; decide))
  have hfirst : first.bracket = .closing := by
    have h := b.htail
    rwa [htail] at h
  rw [htail, readLine_of_closing (hinside.skipDepth.trans hreads) rest hfirst hdeep]
  rfl

/-- A block of which no line names a library is read as its paths say, if its body is. -/
theorem enters_block (src : Source) (load : Loader) (b : Block) (hended : r.ended = false)
    (hreads : r.skipDepth = 0) (hopened : r.work.opened ≠ [])
    (hbody : ∀ r : Reader, r.ended = false → r.skipDepth = 0 → r.work.opened ≠ [] →
      Enters (b.body.paths r.current.path r.openNames) r (r.readLines src load b.body.lines)) :
    Enters (b.paths r.current.path r.openNames) r (r.readLines src load b.lines) := by
  have hrejected : r.Rejects b.head → Enters [] r (r.readLines src load b.lines) := by
    intro hrejects
    obtain ⟨f, -, hlines⟩ := readLines_block_of_rejects src load b hended hreads hrejects
    rw [hlines]
    exact enters_report hopened f
  unfold Block.paths
  cases hname : openedName? b.head with
  | none => exact hrejected fun name h => absurd (hname.symm.trans h) (by simp)
  | some name =>
    dsimp only
    split
    · rename_i hmem
      exact hrejected fun other h => Option.some.inj (hname.symm.trans h) ▸ hmem
    · rename_i hfresh
      obtain ⟨d, inside, hpath, hinside, hlines⟩ :=
        exists_close_of_not_rejected b hended hreads hopened hname hfresh hbody
      rw [hlines, ← hpath]
      rw [← hpath] at hinside
      exact hinside.close hopened

/-- A body of which no line names a library is read as its paths say, whatever sub-circuits are
rejected or dropped. -/
theorem enters_body (src : Source) (load : Loader) (b : Body) {r : Reader}
    (hlines : ∀ line ∈ b.lines, lineReferences line = [])
    (hended : r.ended = false) (hreads : r.skipDepth = 0) (hopened : r.work.opened ≠ []) :
    Enters (b.paths r.current.path r.openNames) r (r.readLines src load b.lines) := by
  induction b generalizing r with
  | nil => exact enters_refl hopened
  | line l hline rest ih =>
    obtain ⟨hl, hrest⟩ := List.forall_mem_cons.1 hlines
    have hfirst := enters_readLine src load hreads hopened hline hl
    have hbehind := ih hrest (hfirst.ended.trans hended) (hfirst.skipDepth.trans hreads)
      hfirst.nonempty_behind
    rw [hfirst.path_current, hfirst.openNames] at hbehind
    unfold Body.lines Body.paths
    rw [readLines_cons hended]
    exact hfirst.trans hbehind
  | block head hhead inner tail htail rest ihInner ihRest =>
    rw [Body.lines_block, List.forall_mem_append] at hlines
    obtain ⟨hblock, hrest⟩ := hlines
    have hinner : ∀ line ∈ inner.lines, lineReferences line = [] := fun line hline =>
      hblock line (List.mem_cons_of_mem head (List.mem_append_left _ hline))
    have hfirst := enters_block src load ⟨head, hhead, inner, tail, htail⟩ hended
      hreads hopened fun _ hended hreads hopened => ihInner hinner hended hreads hopened
    have hbehind := ihRest hrest (hfirst.ended.trans hended) (hfirst.skipDepth.trans hreads)
      hfirst.nonempty_behind
    rw [hfirst.path_current, hfirst.openNames] at hbehind
    rw [Body.lines_block, Body.paths_block, readLines_append]
    exact hfirst.trans hbehind

/-! ## Dropping a sub-circuit -/

/-- The readers have the same definitions, closed ones and open ones, errors apart. -/
structure SameDefinitions (r r' : Reader) : Prop where
  forest : SameUncounted r.work.forest r'.work.forest
  opened : r.work.opened.map Definition.uncounted = r'.work.opened.map Definition.uncounted

/-- A reader has the same definitions as itself. -/
theorem SameDefinitions.refl (r : Reader) : SameDefinitions r r := ⟨fun _ => rfl, rfl⟩

/-- A finding keeps the definitions, errors apart. -/
theorem sameDefinitions_report (r : Reader) (f : Finding) : SameDefinitions r (r.report f) where
  forest path := by rw [report_eq]
  opened := (congrArg View.opened (view_report r f)).symm

/-- A sub-circuit whose path is taken is dropped with what has been read of it, but the forest keeps
what was inside. -/
theorem sameDefinitions_close_iff {d : Definition} {inside : Reader}
    (h : Enters paths (r.push d) inside) (htaken : r.work.forest.contains d.path = true) :
    SameDefinitions r inside.close ↔ ∀ path ∈ paths, r.work.forest.contains path = true := by
  obtain ⟨e, d', around, hpushed, hopened', -, hpath⟩ := h.exists_opened
  obtain ⟨rfl, rfl⟩ := List.cons.inj hpushed
  have hforest : GrowsBy paths r.work.forest inside.work.forest := h.forest
  have hcontains : inside.work.forest.contains d'.path = true := by
    rw [hpath]
    exact (hforest.entered d.path).2 (.inl htaken)
  have hsame := sameDefinitions_report
    { inside with work := { inside.work with opened := r.work.opened } }
    (.usual (.duplicateSubcircuit d'.name) d'.origin)
  rw [close_of_contains hopened' hcontains]
  constructor
  · intro hdefinitions path hmem
    rw [hdefinitions.forest.contains, report_eq]
    exact (hforest.entered path).2 (.inr hmem)
  · intro hall
    have heq : inside.work.forest = r.work.forest := hforest.eq_of_taken hall
    refine ⟨?_, hsame.opened⟩
    rw [← heq]
    exact hsame.forest

/-- A sub-circuit with a path that is taken leaves the definitions as they were exactly if the
paths of all sub-circuits that are read inside it are taken as well. -/
theorem sameDefinitions_duplicate_iff (src : Source) (load : Loader) (r : Reader) (b : Block)
    (name : String) (hended : r.ended = false) (hopened : r.work.opened ≠ [])
    (hlines : ∀ line ∈ b.lines, lineReferences line = [])
    (hname : openedName? b.head = some name)
    (htaken : r.work.forest.contains (Scope.child r.current.path name) = true) :
    SameDefinitions r (r.readLines src load b.lines) ↔
      ∀ path ∈ r.pathsOf b, r.work.forest.contains path = true := by
  have hnothing : r.pathsOf b = [] → SameDefinitions r (r.readLines src load b.lines) →
      (SameDefinitions r (r.readLines src load b.lines) ↔
        ∀ path ∈ r.pathsOf b, r.work.forest.contains path = true) := by
    intro hpaths hsame
    rw [hpaths]
    exact iff_of_true hsame (List.forall_mem_nil _)
  by_cases hreads : r.skipDepth = 0
  · by_cases hfresh : name ∈ r.openNames
    · have hrejects : r.Rejects b.head := fun other h =>
        Option.some.inj (hname.symm.trans h) ▸ hfresh
      obtain ⟨f, -, hread⟩ := readLines_block_of_rejects src load b hended hreads hrejects
      refine hnothing ?_ (by rw [hread]; exact sameDefinitions_report r f)
      unfold pathsOf Block.paths
      rw [if_pos hreads, hname]
      exact if_pos hfresh
    · have hinner : ∀ line ∈ b.body.lines, lineReferences line = [] := fun line hline =>
        hlines line (List.mem_cons_of_mem b.head (List.mem_append_left _ hline))
      obtain ⟨d, inside, hpath, hinside, hread⟩ :=
        exists_close_of_not_rejected b hended hreads hopened hname hfresh
          fun _ hended hreads hopened => enters_body src load b.body hinner hended hreads hopened
      have hpaths : r.pathsOf b =
          b.body.paths (Scope.child r.current.path name) (name :: r.openNames) ++
            [Scope.child r.current.path name] := by
        unfold pathsOf Block.paths
        rw [if_pos hreads, hname]
        exact if_neg hfresh
      rw [hread, hpaths, sameDefinitions_close_iff hinside (by rw [hpath]; exact htaken),
        List.forall_mem_append, List.forall_mem_singleton]
      exact (and_iff_left htaken).symm
  · have hskips : 0 < r.skipDepth := Nat.pos_of_ne_zero hreads
    refine hnothing (if_neg hreads) ?_
    rw [readLines_block_of_skipping src load b hended hskips]
    exact .refl r

/-! ### A duplicate with a sub-circuit of its own -/

/-- A netlist with a sub-circuit `P`. -/
def behindP : Reader :=
  readText (Loading.loader Disk.empty 0) ⟨"n.cir", .netlist⟩ "" "t\n.subckt P a b\nR1 a b 1\n.ends"
    (Workspace.withBuiltin {} Library.empty)

/-- Another sub-circuit `P`, with a sub-circuit `Q` inside. -/
def duplicate : Block where
  head := lineOf ".subckt P a b"
  hhead := nesting_heading
  body :=
    .block (lineOf ".subckt Q a b") (by decide +kernel)
      (.line (lineOf "R1 a b 2") (by decide +kernel) .nil) (lineOf ".ends") nesting_ends
      (.line (lineOf "R1 a b 1") nesting_resistor .nil)
  tail := lineOf ".ends"
  htail := nesting_ends

/-- Behind a sub-circuit `P`, another one with a sub-circuit `Q` inside takes the paths `P/Q` and
`P`, so it leaves the definitions as they were exactly if both are taken. -/
theorem sameDefinitions_duplicate_iff_nested :
    behindP.pathsOf duplicate = ["P/Q", "P"] ∧
      (SameDefinitions behindP
          (behindP.readLines ⟨"n.cir", .netlist⟩ (Loading.loader Disk.empty 0) duplicate.lines) ↔
        ∀ path ∈ behindP.pathsOf duplicate, behindP.work.forest.contains path = true) :=
  ⟨by decide +kernel,
    sameDefinitions_duplicate_iff _ _ behindP duplicate "P" (by decide +kernel)
      (List.length_pos_iff.1 (by decide +kernel)) (by decide +kernel) (by decide +kernel)
      (by decide +kernel)⟩

/-- The path of the second `P` is taken, but its `Q` stays in the forest. -/
theorem not_sameDefinitions_nested :
    behindP.ended = false ∧ behindP.skipDepth = 0 ∧ behindP.work.opened.length = 1 ∧
      openedName? duplicate.head = some "P" ∧ behindP.current.path = "" ∧
      behindP.work.forest.contains (Scope.child "" "P") = true ∧
      (∀ line ∈ duplicate.lines, lineReferences line = []) ∧
      ¬ SameDefinitions behindP
        (behindP.readLines ⟨"n.cir", .netlist⟩ (Loading.loader Disk.empty 0) duplicate.lines) := by
  refine ⟨by decide +kernel, by decide +kernel, by decide +kernel, by decide +kernel,
    by decide +kernel, by decide +kernel, by decide +kernel, fun h => ?_⟩
  have hcontains := h.forest.contains "P/Q"
  revert hcontains
  decide +kernel

end Reader

end FlatNet
