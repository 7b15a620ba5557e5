import FlatNet.Compilation
import FlatNet.Proofs.Completion
import FlatNet.Proofs.Expansion.WellFormed
import FlatNet.Proofs.Library.Loading

/-!
# Compiled circuits are well formed

`Reachable` are the workspaces that come about by the public operations: made anew or around the
built-in library of another one, filled with libraries, used for compiling netlists, cleared and
built again, in any order and with any disk.  They are all regular, and so every circuit that is
compiled in one of them is well formed, errors or not.
-/

set_option autoImplicit false

namespace FlatNet.Workspace

/-- The workspaces that come about by the public operations. -/
inductive Reachable : Workspace → Prop
  | new (settings : Settings) (disk : Disk) : Reachable (Workspace.new settings disk)
  | withBuiltin (settings : Settings) {w : Workspace} (h : Reachable w) :
      Reachable (withBuiltin settings w.builtin)
  | compileLibraryText {w : Workspace} (h : Reachable w) (disk : Disk) (kind : LibraryKind)
      (label text : String) : Reachable (w.compileLibraryText disk kind label text).1
  | compileLibrary {w : Workspace} (h : Reachable w) (disk : Disk) (kind : LibraryKind)
      (path : String) : Reachable (w.compileLibrary disk kind path).1
  | includeLibrary {w : Workspace} (h : Reachable w) (disk : Disk) (kind : LibraryKind)
      (name : String) : Reachable (w.includeLibrary disk kind name).1
  | compile {w : Workspace} (h : Reachable w) (disk : Disk) (label text : String) :
      Reachable (w.compile disk label text).1
  | reset {w : Workspace} (h : Reachable w) : Reachable w.reset
  | rebuild {w : Workspace} (h : Reachable w) (disk : Disk) : Reachable (w.rebuild disk)
  | configure {w : Workspace} (h : Reachable w) (settings : Settings) :
      Reachable { w with settings }

variable {w : Workspace}

/-- A netlist that has been read is resolved, expanded and completed, as far as it is sound. -/
def finishNetlist (w : Workspace) : Workspace × Circuit :=
  if 0 < w.forestErrors then (w, w.stopped)
  else if 0 < w.resolve.1.forestErrors then (w.resolve.1, w.resolve.1.stopped)
  else w.resolve.1.flatten.1.complete w.resolve.1.flatten.2

/-- A netlist is compiled by reading it and finishing what has been read. -/
theorem compile_eq (w : Workspace) (disk : Disk) (label text : String) :
    w.compile disk label text = (w.readNetlist disk label text).finishNetlist := by
  unfold Workspace.compile readNetlist finishNetlist
  generalize w.reset.readSource disk ⟨label, .netlist⟩ "" text = pair
  obtain ⟨read, errors⟩ := pair
  rfl

/-- Compiling a netlist keeps the workspace regular. -/
theorem Regular.compile (h : w.Regular) (disk : Disk) (label text : String) :
    (w.compile disk label text).1.Regular := by
  have hread : (w.readNetlist disk label text).Regular := h.readNetlist disk label text
  rw [compile_eq]
  generalize w.readNetlist disk label text = read at hread ⊢
  unfold finishNetlist
  split
  · exact hread
  · split
    · exact hread.resolve
    · exact (hread.resolve.recordAll _).recordAll _

/-- Every workspace that comes about is regular. -/
theorem Reachable.regular (h : w.Reachable) : w.Regular := by
  induction h with
  | new settings disk => exact regular_rebuild _ disk
  | withBuiltin settings _ ih => exact regular_withBuiltin settings ih.builtin
  | compileLibraryText _ disk kind label text ih => exact ih.compileLibraryText disk kind label text
  | compileLibrary _ disk kind path ih => exact ih.compileLibrary disk kind path
  | includeLibrary _ disk kind name ih => exact ih.includeLibrary disk kind name
  | compile _ disk label text ih => exact ih.compile disk label text
  | reset _ ih => exact ih.reset
  | rebuild _ disk _ => exact regular_rebuild _ disk
  | configure _ settings ih => exact ⟨ih.forest, ih.opened, ih.user, ih.builtin⟩

/-- If no error is counted in a forest, none is counted in its definitions. -/
theorem errors_eq_zero_of_forestErrors (h : w.forestErrors = 0) {path : String} {d : Definition}
    (hd : w.forest[path]? = some d) : d.errors = 0 := by
  have hmem : d ∈ w.forest.values := NameMap.mem_values.2 ⟨path, hd⟩
  have hsum : w.forest.values.foldr (fun d n => d.errors + n) 0 = 0 := h
  revert hmem hsum
  induction w.forest.values with
  | nil => exact fun hmem => absurd hmem List.not_mem_nil
  | cons first rest ih =>
    intro hmem hsum
    rw [List.foldr_cons, Nat.add_eq_zero_iff] at hsum
    rcases List.mem_cons.1 hmem with rfl | hmem
    · exact hsum.1
    · exact ih hmem hsum.2

/-- While no error has been counted in the definitions that have been read, all sub-circuits that
can be expanded have sound elements. -/
theorem Regular.sound_expansionSetting (h : w.Regular) (herrors : w.forestErrors = 0) :
    w.expansionSetting.Sound := by
  intro key proto hproto
  change (w.definitions key.store)[key.path]? = some proto at hproto
  cases hstore : key.store with
  | netlist =>
    rw [hstore] at hproto
    exact (h.forest _ _ hproto).sound (errors_eq_zero_of_forestErrors herrors hproto)
  | user =>
    rw [hstore] at hproto
    obtain ⟨hregular, hzero⟩ := h.user _ _ hproto
    exact hregular.sound hzero
  | builtin =>
    rw [hstore] at hproto
    obtain ⟨hregular, hzero⟩ := h.builtin _ _ hproto
    exact hregular.sound hzero

/-- A circuit without elements is well formed. -/
theorem wellFormed_of_elements_eq_empty {c : Circuit} (h : c.elements = ∅) : c.WellFormed := by
  intro name e he
  rw [h] at he
  exact absurd he (by simp)

/-- Flattening a regular workspace without errors gives a well-formed circuit. -/
theorem Regular.wellFormed_flatten (h : w.Regular) (herrors : w.forestErrors = 0) :
    w.flatten.2.WellFormed := by
  unfold Workspace.flatten
  split
  rename_i circuit findings hpair
  cases hroot : w.forest[""]? with
  | none =>
    rw [hroot] at hpair
    rw [← (Prod.mk.inj hpair).1]
    exact wellFormed_of_elements_eq_empty rfl
  | some root =>
    rw [hroot] at hpair
    have hregular := h.forest "" root hroot
    have hsound := hregular.sound (errors_eq_zero_of_forestErrors herrors hroot)
    have hflat := Expansion.wellFormed_flatten (h.sound_expansionSetting herrors) hregular.keyed
      hsound
    have hcircuit : (Expansion.flatten w.expansionSetting root).1 = circuit :=
      congrArg Prod.fst hpair
    rw [hcircuit] at hflat
    exact hflat

/-- Every circuit that is compiled in a workspace that came about by the public operations is well
formed, whether or not something was found wrong with it. -/
theorem wellFormed_compile (h : w.Reachable) (disk : Disk) (label text : String) :
    (w.compile disk label text).2.WellFormed := by
  have hread : (w.readNetlist disk label text).Regular := h.regular.readNetlist disk label text
  rw [compile_eq]
  generalize w.readNetlist disk label text = read at hread ⊢
  unfold finishNetlist
  split
  · exact wellFormed_of_elements_eq_empty rfl
  · split
    · exact wellFormed_of_elements_eq_empty rfl
    · rename_i herrors
      have hflat := hread.resolve.wellFormed_flatten (Nat.eq_zero_of_not_pos herrors)
      intro name e he
      refine hflat name e ?_
      rw [← Circuit.elements_complete]
      exact he

/-- A workspace whose user library has the sub-circuit `P`, a resistor between its nodes. -/
def stocked : Workspace :=
  ((withBuiltin {} (Workspace.new {} Disk.empty).builtin).compileLibraryText Disk.empty .user
    "parts.lib" "\"parts\"\n.subckt P a b\nR1 a b 1\n.ends\n").1

/-- A netlist with two instances of `P`, whose own resistor has the name that the one in `X1` is
given. -/
def collidingText : String := "t\nX1 1 2 P\nR1_X1 1 0 1\nX2 2 0 P\n.end\n"

/-- The workspace with the sub-circuit `P` comes about by the public operations. -/
theorem reachable_stocked : stocked.Reachable :=
  (Reachable.withBuiltin {} (.new {} Disk.empty)).compileLibraryText Disk.empty .user _ _

set_option maxRecDepth 100000 in
/-- Two instances of a library's sub-circuit, one of which gives its resistor a name that is taken:
this is found when the circuit is flattened and counted as an error, and the circuit, which keeps
the netlist's own resistor and that of the other instance, is well formed all the same. -/
theorem wellFormed_compile_colliding :
    stocked.Reachable ∧ stocked.user.circuits.keys = ["P"] ∧
      ((stocked.readNetlist Disk.empty "main.cir" collidingText).resolve.1.flatten.1
        ).diagnostics.findings.map Finding.problem = [.nameCollision "R1_X1"] ∧
      0 < (stocked.compile Disk.empty "main.cir" collidingText).2.errors ∧
      ((stocked.compile Disk.empty "main.cir" collidingText).2.elements.toList.map fun x =>
        (x.1, x.2.refDes, x.2.nodes)) =
        [("R1_X1", "R1_X1", ["1", "0"]), ("R1_X2", "R1_X2", ["2", "0"])] ∧
      (stocked.compile Disk.empty "main.cir" collidingText).2.WellFormed := by
  refine ⟨reachable_stocked, by decide +kernel, by decide +kernel, ?_, by decide +kernel,
    wellFormed_compile reachable_stocked Disk.empty _ _⟩
  -- completion adds to the errors that flattening has counted
  have hflattened : 0 < (stocked.readNetlist Disk.empty "main.cir"
      collidingText).resolve.1.flatten.2.errors := by decide +kernel
  rw [compile_eq, finishNetlist, if_neg (by decide +kernel), if_neg (by decide +kernel)]
  exact Nat.lt_of_lt_of_le hflattened (Circuit.errors_le_complete _ _)

end FlatNet.Workspace
