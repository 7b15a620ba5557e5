import FlatNet.Proofs.Library.Frame
import FlatNet.Proofs.Reading.Journal
import Mathlib.Data.Finset.Card

/-!
# The nesting of libraries

A file is noted as compiled before it is read, so every library that is loaded inside another one
is loaded with fewer files left on the disk.  After as many levels as there are files nothing is
left to be loaded: what stands for the levels below does not matter any more.
-/

set_option autoImplicit false

namespace FlatNet

namespace Disk

/-- The canonical paths at which something stands that has not been noted as compiled. -/
def pending (disk : Disk) (compiled : NameSet) : Finset String :=
  disk.objects.keys.toFinset.filter fun path => compiled.contains path = false

variable {disk : Disk} {compiled compiled' : NameSet}

/-- No more files are to be compiled than the disk has. -/
theorem card_pending_le_size (disk : Disk) (compiled : NameSet) :
    (disk.pending compiled).card ≤ disk.objects.size := by
  have hkeys := disk.objects.keys.toFinset_card_le
  rw [Std.ExtTreeMap.length_keys] at hkeys
  exact (Finset.card_filter_le _ _).trans hkeys

/-- Noting more files leaves fewer of them. -/
theorem card_pending_mono (h : ∀ file ∈ compiled, file ∈ compiled') :
    (disk.pending compiled').card ≤ (disk.pending compiled).card := by
  apply Finset.card_le_card
  apply Finset.monotone_filter_right
  intro path _ hnew
  rw [← Bool.not_eq_true, Std.ExtTreeSet.contains_iff_mem] at hnew ⊢
  intro hmem
  exact hnew (h path hmem)

/-- Where something has been found it stands. -/
theorem mem_objects_of_find? {path canonical : String} {object : DiskObject}
    (h : disk.find? path = some (canonical, object)) : canonical ∈ disk.objects := by
  unfold find? at h
  obtain ⟨place, -, hplace⟩ := Option.bind_eq_some_iff.1 h
  obtain ⟨found, hfound, heq⟩ := Option.map_eq_some_iff.1 hplace
  obtain ⟨rfl, rfl⟩ := Prod.mk.inj heq
  exact Std.ExtTreeMap.mem_iff_isSome_getElem?.2 (by rw [hfound]; rfl)

/-- Noting a file that has been found leaves one file less. -/
theorem card_pending_insert_lt {path canonical : String} {object : DiskObject}
    (h : disk.find? path = some (canonical, object)) (hnew : compiled.contains canonical = false) :
    (disk.pending (compiled.insert canonical)).card < (disk.pending compiled).card := by
  apply Finset.card_lt_card
  refine (Finset.ssubset_iff_of_subset ?_).2 ⟨canonical, ?_, ?_⟩
  · apply Finset.monotone_filter_right
    intro other _ hother
    rw [Std.ExtTreeSet.contains_insert, Bool.or_eq_false_iff] at hother
    exact hother.2
  · have hmem := mem_objects_of_find? h
    simp [pending, hnew, hmem]
  · simp [pending]

end Disk

namespace Loading

variable {disk : Disk} {load₁ load₂ : Loader}

/-- The loaders do the same as long as fewer files than the bound are left. -/
def AgreeBelow (disk : Disk) (bound : Nat) (load₁ load₂ : Loader) : Prop :=
  ∀ kind name w, (disk.pending w.compiled).card < bound → load₁ kind name w = load₂ kind name w

/-- While a text is read, no more files are left than at its beginning. -/
theorem keeps_card_pending (hload : load₂.Frames disk) (src : Source) (bound : Nat) :
    Reader.Keeps src load₂ fun r =>
      0 < r.work.opened.length ∧ (disk.pending r.work.stock.compiled).card < bound := by
  refine Reader.keeps_stock (P := fun s => (disk.pending s.compiled).card < bound) hload.opened ?_
  intro kind name w h
  exact (Disk.card_pending_mono (hload.frame kind name w).compiled).trans_lt h

/-- A library text is compiled the same by loaders that agree on all files that are to be
compiled. -/
theorem compileText_congr {bound : Nat} (hagree : AgreeBelow disk bound load₁ load₂)
    (hload : load₂.Frames disk) (kind : LibraryKind) (label text : String) {w : Workspace}
    (hw : (disk.pending w.compiled).card < bound) :
    compileText load₁ kind label text w = compileText load₂ kind label text w := by
  have hsimulation := (keeps_card_pending hload ⟨label, .library kind⟩ bound).simulation_of_agree
    fun r hr kind name => hagree kind name r.work hr.2
  have hsame : readerOf load₁ kind label text w = readerOf load₂ kind label text w := by
    unfold readerOf
    apply And.left
    apply hsimulation.ofText
    exact ⟨rfl, Nat.succ_pos _, hw⟩
  rw [compileText_eq, compileText_eq, hsame]

/-- Loaders that agree while few files are left load libraries that agree while one more is. -/
theorem AgreeBelow.compileNamed {bound : Nat} (hagree : AgreeBelow disk bound load₁ load₂)
    (hload : load₂.Frames disk) :
    AgreeBelow disk (bound + 1) (compileNamed load₁ disk) (compileNamed load₂ disk) := by
  intro kind name w hw
  have hloads := loads_compileNamed load₂ disk kind name w
  generalize Loading.compileNamed load₂ disk kind name w = result at hloads ⊢
  cases hloads with
  | standard hname => exact Loads.eq (.standard hname)
  | missing hname hpath => exact Loads.eq (.missing hname hpath)
  | @found path hname hpath =>
    rw [(Loads.found hname hpath).eq]
    have hcompiles := compiles_compileFile load₂ disk kind path w
    generalize compileFile load₂ disk kind path w = result at hcompiles ⊢
    cases hcompiles with
    | missing hfind => exact Compiles.eq (.missing hfind)
    | known hfind hknown => exact Compiles.eq (.known hfind hknown)
    | unreadable hfind hnew htext => exact Compiles.eq (.unreadable hfind hnew htext)
    | @compiled canonical text _ hfind hnew htext =>
      have hlt := Disk.card_pending_insert_lt hfind
        (Bool.eq_false_iff.2 fun hknown => hnew (Std.ExtTreeSet.contains_iff_mem.1 hknown))
      rw [(Compiles.compiled hfind hnew htext).eq,
        compileText_congr hagree hload kind path text (by simpa using by omega)]

/-- The loader of libraries, with another loader below the given number of levels. -/
def unfolded (disk : Disk) (bottom : Loader) (n : Nat) : Loader :=
  (fun load => compileNamed load disk)^[n] bottom

/-- One more level of nesting loads by name with the loader of one level less. -/
theorem unfolded_succ (disk : Disk) (bottom : Loader) (n : Nat) :
    unfolded disk bottom (n + 1) = compileNamed (unfolded disk bottom n) disk :=
  Function.iterate_succ_apply' _ _ _

/-- What stands below the levels does not matter while fewer files than levels are left. -/
theorem agreeBelow_unfolded (disk : Disk) (bottom : Loader) (n : Nat) :
    AgreeBelow disk n (unfolded disk bottom n) (loader disk n) := by
  induction n with
  | zero =>
    intro kind name w hw
    omega
  | succ n ih =>
    rw [unfolded_succ]
    exact ih.compileNamed (frames_loader disk n)

/-- With more levels than files on the disk the loader of the disk is reached, whatever stands
below them. -/
theorem unfolded_eq_loader (disk : Disk) (bottom : Loader) {n : Nat} (h : disk.objects.size < n) :
    unfolded disk bottom n = disk.loader := by
  obtain ⟨k, rfl⟩ := Nat.exists_eq_add_of_lt h
  have hsplit : unfolded disk bottom (disk.objects.size + k + 1) =
      unfolded disk (unfolded disk bottom k) (disk.objects.size + 1) := by
    unfold unfolded
    rw [← Function.iterate_add_apply]
    congr 1
    omega
  rw [hsplit]
  funext kind name w
  have hle := disk.card_pending_le_size w.compiled
  exact agreeBelow_unfolded disk _ _ kind name w (by omega)

/-- The loader of the disk loads the libraries inside a library by itself. -/
theorem compileNamed_loader (disk : Disk) : compileNamed disk.loader disk = disk.loader := by
  have hmore := unfolded_eq_loader disk disk.loader (Nat.lt_succ_self disk.objects.size)
  have hmost := unfolded_eq_loader disk disk.loader (Nat.lt_succ_of_lt
    (Nat.lt_succ_self disk.objects.size))
  rw [unfolded_succ, hmore] at hmost
  exact hmost

end Loading

end FlatNet
