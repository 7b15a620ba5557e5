import FlatNet.Proofs.Compilation
import FlatNet.Proofs.Library.Frame
import Mathlib.Algebra.GroupWithZero.Nat

/-!
# Reading a netlist

While a netlist is read, the definitions in the forest are its closed sub-circuits and the netlist
itself is the last one of those that are open; libraries do not interfere.  `OfNetlist` says this,
together with what is known of the definitions: their elements wait for their binding, and they have
errors exactly if errors have been found.
-/

set_option autoImplicit false

namespace FlatNet

/-- All elements of the definition wait for their binding. -/
def Definition.Unbound (d : Definition) : Prop :=
  ∀ e ∈ d.elements.values, e.isUnresolved = true

namespace Forest

/-- The errors of a forest are those of its definitions. -/
theorem errors_eq_sum (forest : Forest) :
    forest.errors = (forest.values.map Definition.errors).sum := by
  unfold errors
  induction forest.values with
  | nil => rfl
  | cons d rest ih => rw [List.foldr_cons, ih, List.map_cons, List.sum_cons]

/-- A new definition adds its errors. -/
theorem errors_insert {forest : Forest} {path : String} (h : forest[path]? = none)
    (d : Definition) : Forest.errors (forest.insert path d) = d.errors + forest.errors := by
  rw [errors_eq_sum, errors_eq_sum, ((NameMap.values_insert_perm h d).map _).sum_nat, List.map_cons,
    List.sum_cons]

/-- Another definition at a path brings its errors and takes those of the old one. -/
theorem errors_replace {forest : Forest} {path : String} {d : Definition}
    (h : forest[path]? = some d) (d' : Definition) :
    Forest.errors (forest.insert path d') + d.errors = forest.errors + d'.errors := by
  have hnone : (forest.erase path)[path]? = none := by simp
  have hsame : (forest.erase path).insert path d' = forest.insert path d' := by
    refine Std.ExtTreeMap.ext_getElem? fun other => ?_
    rw [Std.ExtTreeMap.getElem?_insert, Std.ExtTreeMap.getElem?_insert,
      Std.ExtTreeMap.getElem?_erase]
    split <;> rfl
  have hold : forest.errors = d.errors + Forest.errors (forest.erase path) := by
    rw [errors_eq_sum, errors_eq_sum, ((NameMap.values_erase_perm h).map _).sum_nat, List.map_cons,
      List.sum_cons]
  rw [← hsame, errors_insert hnone, hold]
  omega

variable {s : Surroundings}

/-- The errors found in a definition are counted in the forest. -/
theorem errors_resolveAt (state : Forest × List Finding) (path : String) :
    (resolveAt s state path).1.errors + errorCount state.2 =
      state.1.errors + errorCount (resolveAt s state path).2 := by
  cases h : state.1[path]? with
  | none =>
    unfold resolveAt
    rw [h]
  | some d =>
    have hreplace := errors_replace h (d.resolved s state.1)
    have herrors : (d.resolved s state.1).errors = d.errors + errorCount (d.resolve s state.1).2 :=
      rfl
    rw [resolveAt_of_getElem? h]
    dsimp only
    rw [errorCount_append]
    omega

/-- Resolution counts the errors that it finds. -/
theorem errors_resolve (forest : Forest) :
    (forest.resolve s).1.errors = forest.errors + errorCount (forest.resolve s).2 := by
  have hrow : ∀ (paths : List String) (state : Forest × List Finding),
      (paths.foldl (resolveAt s) state).1.errors + errorCount state.2 =
        state.1.errors + errorCount (paths.foldl (resolveAt s) state).2 := by
    intro paths
    induction paths with
    | nil => exact fun _ => rfl
    | cons path rest ih =>
      intro state
      have hfirst := errors_resolveAt (s := s) state path
      have hrest := ih (resolveAt s state path)
      rw [List.foldl_cons]
      omega
  exact hrow forest.keys (forest, [])

end Forest

namespace Scope

/-- The path of a sub-circuit of a netlist. -/
def Inside (path : String) : Prop := path ≠ "" ∧ ':' ∉ path.toList

/-- A named token in a netlist or inside one of its sub-circuits names a path inside it. -/
theorem inside_child {parent : String} (h : parent = "" ∨ Inside parent) {t : Token}
    (hname : t.isIdentifier = true) (ht : t.Named) : Inside (child parent t.text) := by
  obtain ⟨hne, hchars⟩ := ht hname
  have hcolon : ':' ∉ t.text.toList := fun hmem => absurd (hchars ':' hmem) (by decide)
  rcases h with rfl | h
  · refine ⟨?_, hcolon⟩
    intro hempty
    exact hne (by rw [← String.toList_empty]; exact congrArg String.toList hempty)
  · refine ⟨fun hempty => ?_, ?_⟩
    · have hlist := congrArg String.toList hempty
      rw [toList_child h.1] at hlist
      exact absurd hlist (by simp)
    · rw [toList_child h.1, List.mem_append, List.mem_cons]
      rintro (hmem | hmem | hmem)
      · exact h.2 hmem
      · exact absurd hmem (by decide)
      · exact hcolon hmem

end Scope

namespace Reader

open Scope (Inside)

/-- The open definitions of a netlist: the netlist itself is the last one. -/
def Nested (opened : List Definition) : Prop :=
  ∃ inner root, opened = inner ++ [root] ∧ root.path = "" ∧ ∀ d ∈ inner, Inside d.path

/-- The state of reading a netlist. -/
structure OfNetlist (r : Reader) : Prop where
  opened : Nested r.work.opened
  inside : ∀ (path : String) (d : Definition), r.work.forest[path]? = some d → Inside path
  unboundOpened : ∀ d ∈ r.work.opened, d.Unbound
  unboundForest : ∀ (path : String) (d : Definition), r.work.forest[path]? = some d → d.Unbound
  counted : (r.work.opened.map Definition.errors).sum + r.work.forest.errors = 0 ↔ r.errors = 0

section Nested

variable {opened : List Definition}

/-- While a netlist is read, the netlist is open. -/
theorem Nested.nonempty (h : Nested opened) : 0 < opened.length := by
  obtain ⟨inner, root, rfl, -, -⟩ := h
  rw [List.length_append]
  exact Nat.succ_pos _

/-- The nesting depends on the paths of the open definitions alone. -/
theorem Nested.modifyHead (h : Nested opened) {g : Definition → Definition}
    (hg : ∀ d, (g d).path = d.path) : Nested (opened.modifyHead g) := by
  obtain ⟨inner, root, rfl, hroot, hinner⟩ := h
  cases inner with
  | nil => exact ⟨[], g root, rfl, (hg root).trans hroot, List.forall_mem_nil _⟩
  | cons d around =>
    obtain ⟨hd, haround⟩ := List.forall_mem_cons.1 hinner
    refine ⟨g d :: around, root, rfl, hroot, List.forall_mem_cons.2 ⟨?_, haround⟩⟩
    rwa [hg]

/-- A sub-circuit may be opened inside those that are open. -/
theorem Nested.cons (h : Nested opened) {d : Definition} (hd : Inside d.path) :
    Nested (d :: opened) := by
  obtain ⟨inner, root, rfl, hroot, hinner⟩ := h
  exact ⟨d :: inner, root, rfl, hroot, List.forall_mem_cons.2 ⟨hd, hinner⟩⟩

/-- Of several open definitions the innermost one lies inside the netlist. -/
theorem Nested.tail {d : Definition} (h : Nested (d :: opened)) (hdeep : 0 < opened.length) :
    Inside d.path ∧ Nested opened := by
  obtain ⟨inner, root, heq, hroot, hinner⟩ := h
  cases inner with
  | nil =>
    obtain ⟨-, rfl⟩ := List.cons.inj heq
    exact absurd hdeep (Nat.lt_irrefl 0)
  | cons first rest =>
    obtain ⟨rfl, rfl⟩ := List.cons.inj heq
    obtain ⟨hd, hrest⟩ := List.forall_mem_cons.1 hinner
    exact ⟨hd, rest, root, rfl, hroot, hrest⟩

/-- The innermost definition is the netlist or lies inside it. -/
theorem Nested.current (h : Nested opened) :
    (opened.headD default).path = "" ∨ Inside (opened.headD default).path := by
  obtain ⟨inner, root, rfl, hroot, hinner⟩ := h
  cases inner with
  | nil => exact .inl hroot
  | cons d around => exact .inr (hinner d List.mem_cons_self)

/-- A change that is no matter of errors keeps their number. -/
theorem sum_errors_modifyHead {g : Definition → Definition} (hg : ∀ d, (g d).errors = d.errors)
    (opened : List Definition) :
    ((opened.modifyHead g).map Definition.errors).sum = (opened.map Definition.errors).sum := by
  cases opened with
  | nil => rfl
  | cons d around =>
    rw [List.modifyHead_cons, List.map_cons, List.sum_cons, hg, List.map_cons, List.sum_cons]

/-- Counting an error adds one to those of the open definitions. -/
theorem sum_errors_countError (h : 0 < opened.length) :
    ((opened.modifyHead countError).map Definition.errors).sum =
      (opened.map Definition.errors).sum + 1 := by
  cases opened with
  | nil => exact absurd h (Nat.lt_irrefl 0)
  | cons d around =>
    rw [List.modifyHead_cons, List.map_cons, List.sum_cons, List.map_cons, List.sum_cons]
    show d.errors + 1 + _ = _
    omega

end Nested

namespace OfNetlist

variable {r : Reader}

/-- The state of reading a netlist is kept by a change of the innermost definition that adds only
elements that wait for their binding. -/
theorem modifyCurrent (h : r.OfNetlist) {g : Definition → Definition}
    (hpath : ∀ d, (g d).path = d.path) (herrors : ∀ d, (g d).errors = d.errors)
    (hunbound : ∀ d, d.Unbound → (g d).Unbound) : (r.modifyCurrent g).OfNetlist := by
  rw [modifyCurrent_eq]
  refine ⟨h.opened.modifyHead hpath, h.inside, forall_mem_modifyHead h.unboundOpened hunbound,
    h.unboundForest, ?_⟩
  show ((r.work.opened.modifyHead g).map Definition.errors).sum + r.work.forest.errors = 0 ↔ _
  rw [sum_errors_modifyHead herrors]
  exact h.counted

/-- The state of reading a netlist is kept by a finding. -/
theorem report (h : r.OfNetlist) (f : Finding) : (r.report f).OfNetlist := by
  rw [report_eq]
  cases f.isError with
  | false => exact ⟨h.opened, h.inside, h.unboundOpened, h.unboundForest, h.counted⟩
  | true =>
    refine ⟨h.opened.modifyHead fun _ => rfl, h.inside,
      forall_mem_modifyHead h.unboundOpened fun _ hd => hd, h.unboundForest, ?_⟩
    show ((r.work.opened.modifyHead countError).map Definition.errors).sum +
      r.work.forest.errors = 0 ↔ r.errors + 1 = 0
    rw [sum_errors_countError h.opened.nonempty]
    omega

/-- The state of reading a netlist is kept when a sub-circuit is closed. -/
theorem close (h : r.OfNetlist) (hdeep : 1 < r.work.opened.length) : r.close.OfNetlist := by
  have hcounted := h.counted
  cases hopened : r.work.opened with
  | nil =>
    rw [hopened] at hdeep
    exact absurd hdeep (Nat.not_lt_zero _)
  | cons d around =>
    have hnested := h.opened
    have hunbound := h.unboundOpened
    rw [hopened] at hdeep hnested hunbound hcounted
    obtain ⟨hd, haround⟩ := List.forall_mem_cons.1 hunbound
    obtain ⟨hinside, houter⟩ := hnested.tail (Nat.lt_of_succ_lt_succ hdeep)
    rw [List.map_cons, List.sum_cons] at hcounted
    cases hcontains : r.work.forest.contains d.path with
    | true =>
      -- the errors of the definition are lost, but there is a new one around it
      rw [close_of_contains hopened hcontains, report_eq]
      refine ⟨houter.modifyHead fun _ => rfl, h.inside,
        forall_mem_modifyHead haround fun _ hd => hd, h.unboundForest, ?_⟩
      show ((around.modifyHead countError).map Definition.errors).sum +
        r.work.forest.errors = 0 ↔ r.errors + 1 = 0
      rw [sum_errors_countError houter.nonempty]
      omega
    | false =>
      have hnone := NameMap.contains_eq_false_iff.1 hcontains
      have hadded : OfNetlist { r with work := { r.work with
          opened := around, forest := r.work.forest.insert d.path d } } := by
        refine ⟨houter, fun path e he => ?_, haround, fun path e he => ?_, ?_⟩
        · rcases NameMap.getElem?_of_insert he with ⟨rfl, -⟩ | hold
          · exact hinside
          · exact h.inside path e hold
        · rcases NameMap.getElem?_of_insert he with ⟨-, rfl⟩ | hold
          · exact hd
          · exact h.unboundForest path e hold
        · show (around.map Definition.errors).sum +
            Forest.errors (r.work.forest.insert d.path d) = 0 ↔ r.errors = 0
          rw [Forest.errors_insert hnone]
          omega
      rw [close_of_not_contains hopened hcontains]
      exact hadded.modifyCurrent (fun _ => rfl) (fun _ => rfl) fun _ hd => hd

/-- The closed sub-circuits of a netlist are a plain forest. -/
theorem plain (h : r.OfNetlist) : r.work.forest.Plain := by
  intro path hpath
  rw [Std.ExtTreeMap.mem_iff_isSome_getElem?] at hpath
  obtain ⟨d, hd⟩ := Option.isSome_iff_exists.1 hpath
  exact (h.inside path d hd).2

/-- Libraries leave the definitions of a netlist alone. -/
theorem loaded (h : r.OfNetlist) {disk : Disk} {load : Loader} (hload : load.Frames disk)
    (src : Source) (t : Token) : (r.loaded src load t).OfNetlist := by
  have hforest := h.plain.eq_of_frame (hload.frame src.libraryKind t.text r.work)
  have hopened := hload.opened src.libraryKind t.text r.work
  unfold Reader.loaded
  revert hforest hopened
  generalize load src.libraryKind t.text r.work = result
  obtain ⟨work, problem?⟩ := result
  intro hforest hopened
  have hwork : OfNetlist { r with work := work } := by
    change work.forest = r.work.forest at hforest
    change work.opened = r.work.opened at hopened
    refine ⟨?_, ?_, ?_, ?_, ?_⟩ <;> dsimp only
    · rw [hopened]
      exact h.opened
    · rw [hforest]
      exact h.inside
    · rw [hopened]
      exact h.unboundOpened
    · rw [hforest]
      exact h.unboundForest
    · rw [hopened, hforest]
      exact h.counted
  cases problem? with
  | none => exact hwork
  | some problem => exact hwork.report _

end OfNetlist

/-- A mild change of a definition adds only elements that wait for their binding. -/
theorem unbound_of_mild {file : String} {line : List Token} {g : Definition → Definition}
    (hg : Mild file line g) {d : Definition} (h : d.Unbound) : (g d).Unbound := by
  intro e he
  rcases hg.elements d e he with hold | ⟨hnew, -⟩
  · exact h e hold
  · exact hnew

/-- In a definition without elements nothing is bound. -/
theorem unbound_of_elements_eq_empty {d : Definition} (h : d.elements = ∅) : d.Unbound := by
  intro e he
  rw [h] at he
  exact absurd (NameMap.mem_values.1 he) (by simp)

/-- Whatever is done to the reader of a netlist keeps it one. -/
theorem keeps_ofNetlist {disk : Disk} {load : Loader} (hload : load.Frames disk) (src : Source) :
    Keeps src load OfNetlist where
  opened := fun h => h.opened.nonempty
  report := fun f h _ => h.report f
  change := fun h _ hg =>
    h.modifyCurrent hg.path hg.errors fun _ hd => unbound_of_mild hg hd
  opens := by
    intro r first name heading h hname hnamed
    have hpath : r.view.current.path = "" ∨ Inside r.view.current.path := by
      rw [current_view]
      exact h.opened.current
    refine ⟨h.opened.cons (Scope.inside_child hpath hname hnamed), h.inside, ?_, h.unboundForest,
      ?_⟩
    · exact List.forall_mem_cons.2 ⟨unbound_of_elements_eq_empty rfl, h.unboundOpened⟩
    · show 0 + (r.work.opened.map Definition.errors).sum + r.work.forest.errors = 0 ↔ r.errors = 0
      rw [Nat.zero_add]
      exact h.counted
  closes := fun h hdeep => h.close hdeep
  load := fun {_ t} h _ => h.loaded hload src t
  skipTo := fun _ h => ⟨h.opened, h.inside, h.unboundOpened, h.unboundForest, h.counted⟩
  stop := fun h => ⟨h.opened, h.inside, h.unboundOpened, h.unboundForest, h.counted⟩

end Reader

namespace Reader

/-- At the end of a netlist only the netlist is open. -/
structure OfWholeNetlist (r : Reader) : Prop extends r.OfNetlist where
  root : ∃ root, r.work.opened = [root] ∧ root.path = ""

variable {r : Reader} {w : Workspace} {load : Loader} {disk : Disk}

/-- A text begins as a netlist in a workspace without definitions. -/
theorem initial_ofNetlist (hforest : w.forest = ∅) (hopened : w.opened = []) (src : Source)
    (text : String) : (initial src "" text w).OfNetlist := by
  have hnone : ∀ (path : String) (d : Definition), w.forest[path]? ≠ some d := by
    rw [hforest]
    simp
  constructor
  · refine ⟨[], Definition.blank (src.rootName "") "" "" (some ⟨src.file, 1, 1⟩), ?_, rfl,
      List.forall_mem_nil _⟩
    show _ :: w.opened = _
    rw [hopened]
    rfl
  · exact fun path d hd => absurd hd (hnone path d)
  · show ∀ d ∈ _ :: w.opened, d.Unbound
    rw [hopened]
    exact List.forall_mem_singleton.2 (unbound_of_elements_eq_empty rfl)
  · exact fun path d hd => absurd hd (hnone path d)
  · show ((_ :: w.opened).map Definition.errors).sum + w.forest.errors = 0 ↔ 0 = 0
    rw [hopened, hforest]
    exact ⟨fun _ => rfl, fun _ => rfl⟩

/-- A text that is read as a netlist into a workspace without definitions is a whole netlist. -/
theorem ofWholeNetlist (hload : load.Frames disk) (hforest : w.forest = ∅)
    (hopened : w.opened = []) (src : Source) (text : String) :
    (ofText load src "" text w).OfWholeNetlist := by
  have hstart := initial_ofNetlist hforest hopened src text
  have hend := (keeps_ofNetlist hload src).ofText hstart
  have hlength := (keeps_ofNetlist hload src).length_opened_ofText hstart
  obtain ⟨inner, root, heq, hroot, -⟩ := hend.opened
  rw [heq, List.length_append] at hlength
  have hinner : inner = [] := List.eq_nil_of_length_eq_zero (by simpa using hlength)
  exact ⟨hend, root, by rw [heq, hinner]; rfl, hroot⟩

namespace OfWholeNetlist

/-- The netlist is added to the forest under the empty path. -/
theorem settle_eq (h : r.OfWholeNetlist) : ∃ root, r.work.opened = [root] ∧
    r.work.forest[""]? = none ∧
    r.settle.work = { r.work with opened := [], forest := r.work.forest.insert "" root } := by
  obtain ⟨root, hopened, hroot⟩ := h.root
  refine ⟨root, hopened, ?_, ?_⟩
  · refine Option.eq_none_iff_forall_not_mem.2 fun d hd => ?_
    exact (h.inside "" d hd).1 rfl
  · unfold settle
    rw [hopened]
    dsimp only
    rw [hroot]

/-- Errors are counted in the definitions of a netlist exactly if some have been found. -/
theorem forestErrors_settle (h : r.OfWholeNetlist) :
    r.settle.work.forestErrors = 0 ↔ r.errors = 0 := by
  obtain ⟨root, hopened, hnone, hsettle⟩ := h.settle_eq
  have hcounted := h.counted
  rw [hopened, List.map_singleton, List.sum_singleton] at hcounted
  rw [hsettle]
  show Forest.errors (r.work.forest.insert "" root) = 0 ↔ r.errors = 0
  rw [Forest.errors_insert hnone]
  exact hcounted

/-- In a netlist that has been read nothing is bound. -/
theorem unbound_settle (h : r.OfWholeNetlist) {path : String} {d : Definition}
    (hd : r.settle.work.forest[path]? = some d) : d.Unbound := by
  obtain ⟨root, hopened, -, hsettle⟩ := h.settle_eq
  rw [hsettle] at hd
  rcases NameMap.getElem?_of_insert hd with ⟨-, rfl⟩ | hold
  · exact h.unboundOpened d (by rw [hopened]; exact List.mem_singleton_self d)
  · exact h.unboundForest path d hold

end OfWholeNetlist

end Reader

namespace Workspace

/-- The reader at the end of a netlist, with a loader of its own. -/
def readerWith (w : Workspace) (load : Loader) (label text : String) : Reader :=
  Reader.ofText load ⟨label, .netlist⟩ "" text w.reset

/-- Reading a netlist is running its reader to the end and settling it. -/
theorem readNetlist_eq (w : Workspace) (disk : Disk) (label text : String) :
    w.readNetlist disk label text = (w.readerWith disk.loader label text).settle.work := by
  unfold readNetlist readSource readerWith
  rw [Reader.readSource_eq]

/-- At the end of a netlist only the netlist is open, whatever loader with a frame has been used. -/
theorem ofWholeNetlist_readerWith (w : Workspace) {load : Loader} {disk : Disk}
    (hload : load.Frames disk) (label text : String) :
    (w.readerWith load label text).OfWholeNetlist :=
  Reader.ofWholeNetlist hload rfl rfl _ text

/-! ## Resolving a netlist -/

/-- What is found wrong when the names of the netlist are resolved. -/
def resolutionFindings (w : Workspace) : List Finding :=
  (w.forest.resolve (Loading.surroundings .netlist w)).2

/-- Findings that are recorded are put behind those that are there. -/
theorem findings_recordAll (w : Workspace) (fs : List Finding) :
    (w.recordAll fs).diagnostics.findings = w.diagnostics.findings ++ fs :=
  Diagnostics.findings_recordAll _ _

/-- Resolution reports what is found wrong when the names are resolved. -/
theorem findings_resolve (w : Workspace) :
    w.resolve.1.diagnostics.findings = w.diagnostics.findings ++ w.resolutionFindings :=
  findings_recordAll _ _

/-- Resolution counts the errors among what it finds wrong. -/
theorem forestErrors_resolve (w : Workspace) :
    w.resolve.1.forestErrors = w.forestErrors + errorCount w.resolutionFindings :=
  Forest.errors_resolve w.forest

end Workspace

end FlatNet
