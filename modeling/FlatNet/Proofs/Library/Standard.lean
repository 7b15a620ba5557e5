import FlatNet.Proofs.Accepted
import FlatNet.Proofs.Library.Frame

/-!
# The standard workspace

From an empty disk no library can be loaded, so reading a text leaves the libraries and the files
compiled so far alone.  It follows that the standard library has been compiled from no files, and
that a workspace around it, which comes about by the public operations, is an empty one with the
standard library built in.
-/

set_option autoImplicit false

namespace FlatNet

/-- The loader never loads anything. -/
def Loader.Idle (load : Loader) : Prop :=
  ∀ (kind : LibraryKind) (name : String) (w : Workspace), (load kind name w).1 = w

namespace Reader

/-- The reader works with the settings, the libraries and the compiled files of a workspace. -/
structure Around (w : Workspace) (r : Reader) : Prop where
  nonempty : 0 < r.work.opened.length
  same : ∃ forest opened diagnostics, r.work = { w with forest, opened, diagnostics }

variable {w : Workspace} {r : Reader}

/-- A change of the innermost definition leaves the libraries alone. -/
theorem Around.modifyCurrent (h : r.Around w) (g : Definition → Definition) :
    (r.modifyCurrent g).Around w := by
  obtain ⟨hnonempty, forest, opened, diagnostics, hwork⟩ := h
  refine ⟨by rwa [length_opened_modifyCurrent], forest, opened.modifyHead g, diagnostics, ?_⟩
  rw [modifyCurrent_eq, hwork]

/-- A finding leaves the libraries alone. -/
theorem Around.report (h : r.Around w) (f : Finding) : (r.report f).Around w := by
  obtain ⟨hnonempty, forest, opened, diagnostics, hwork⟩ := h
  refine ⟨by rwa [length_opened_report], forest,
    if f.isError then opened.modifyHead countError else opened, diagnostics.record f, ?_⟩
  rw [report_eq, hwork]

/-- Closing a definition leaves the libraries alone. -/
theorem Around.close (h : r.Around w) (hdeep : 1 < r.work.opened.length) : r.close.Around w := by
  obtain ⟨-, forest, opened, diagnostics, hwork⟩ := h
  cases hopened : r.work.opened with
  | nil =>
    rw [hopened] at hdeep
    exact absurd hdeep (Nat.not_lt_zero _)
  | cons d around =>
    rw [hopened] at hdeep
    have haround : 0 < around.length := Nat.lt_of_succ_lt_succ hdeep
    cases hcontains : r.work.forest.contains d.path with
    | true =>
      rw [close_of_contains hopened hcontains]
      exact Around.report ⟨haround, forest, around, diagnostics, by rw [hwork]⟩ _
    | false =>
      rw [close_of_not_contains hopened hcontains]
      exact Around.modifyCurrent
        ⟨haround, forest.insert d.path d, around, diagnostics, by rw [hwork]⟩ _

/-- With an idle loader a reader keeps to its libraries. -/
theorem keeps_around {load : Loader} (hidle : load.Idle) (src : Source) (w : Workspace) :
    Keeps src load (Around w) where
  opened := fun h => h.nonempty
  report := fun f h _ => h.report f
  change := fun h _ _ => h.modifyCurrent _
  opens := by
    rintro r first name heading ⟨-, forest, opened, diagnostics, hwork⟩ _ _
    exact ⟨Nat.succ_pos _, forest, _, diagnostics, congrArg (fun w : Workspace =>
      { w with opened := opening src r.view first name heading :: r.work.opened }) hwork⟩
  closes := fun h hdeep => h.close hdeep
  load := by
    intro r t h _
    have hsame := hidle src.libraryKind t.text r.work
    unfold loaded
    revert hsame
    generalize load src.libraryKind t.text r.work = result
    obtain ⟨work, problem?⟩ := result
    intro hsame
    change work = r.work at hsame
    subst hsame
    cases problem? with
    | none => exact h
    | some problem => exact h.report _
  skipTo := fun _ h => ⟨h.nonempty, h.same⟩
  stop := fun h => ⟨h.nonempty, h.same⟩

/-- Settling a text's own definition leaves settings, libraries and compiled files alone. -/
theorem settle_kept (r : Reader) :
    r.settle.work.settings = r.work.settings ∧ r.settle.work.user = r.work.user ∧
      r.settle.work.builtin = r.work.builtin ∧ r.settle.work.compiled = r.work.compiled := by
  unfold settle
  split <;> exact ⟨rfl, rfl, rfl, rfl⟩

/-- What a reader leaves alone. -/
theorem Around.kept (h : r.Around w) :
    r.work.settings = w.settings ∧ r.work.user = w.user ∧ r.work.builtin = w.builtin ∧
      r.work.compiled = w.compiled := by
  obtain ⟨-, forest, opened, diagnostics, hwork⟩ := h
  rw [hwork]
  exact ⟨rfl, rfl, rfl, rfl⟩

end Reader

namespace Loading

/-- Adding definitions to a library notes no file. -/
theorem files_promote (lib : Library) (defs : Forest) : (lib.promote defs).files = lib.files := by
  unfold Library.promote
  dsimp only
  split <;> rfl

/-- With an idle loader no file is noted in the library that a text is compiled into. -/
theorem files_compileText {load : Loader} (hidle : load.Idle) (label text : String)
    (w : Workspace) :
    (compileText load .builtin label text w).1.builtin.files = w.builtin.files := by
  have hread : (readerOf load .builtin label text w).Around { w with opened := [] } :=
    (Reader.keeps_around hidle _ _).ofText ⟨Nat.succ_pos _, _, _, _, rfl⟩
  have hbuiltin := (Reader.settle_kept _).2.2.1.trans hread.kept.2.2.1
  rw [compileText_eq]
  revert hbuiltin
  generalize readerOf load .builtin label text w = r
  intro hbuiltin
  show (r.settle.work.builtin.promote _).files = w.builtin.files
  rw [files_promote, hbuiltin]

/-- With an idle loader only the library of the text changes, but for what is read meanwhile. -/
theorem kept_compileText {load : Loader} (hidle : load.Idle) (label text : String)
    (w : Workspace) :
    (compileText load .builtin label text w).1.settings = w.settings ∧
      (compileText load .builtin label text w).1.user = w.user ∧
      (compileText load .builtin label text w).1.compiled = w.compiled := by
  have hread : (readerOf load .builtin label text w).Around { w with opened := [] } :=
    (Reader.keeps_around hidle _ _).ofText ⟨Nat.succ_pos _, _, _, _, rfl⟩
  obtain ⟨hsettings, huser, -, hcompiled⟩ := hread.kept
  obtain ⟨hsettings', huser', -, hcompiled'⟩ :=
    Reader.settle_kept (readerOf load .builtin label text w)
  rw [compileText_eq]
  generalize readerOf load .builtin label text w = r at *
  exact ⟨hsettings'.trans hsettings, huser'.trans huser, hcompiled'.trans hcompiled⟩

/-- Nothing is found on an empty disk. -/
theorem idle_loader_empty (n : Nat) : (loader Disk.empty n).Idle := by
  intro kind name w
  cases n with
  | zero => rfl
  | succ n =>
    have hloads := loads_loader Disk.empty n kind name w
    generalize loader Disk.empty (n + 1) kind name w = result at hloads ⊢
    cases hloads with
    | standard _ | missing _ _ => rfl
    | @found path _ _ =>
      have hfind : Disk.empty.find? path = none := rfl
      rw [(Compiles.missing hfind).eq]

end Loading

namespace Workspace

/-- Without configured libraries only the standard library is built in. -/
theorem files_new_of_idle {settings : Settings} {disk : Disk}
    (h : settings.builtinLibraries = []) (hidle : disk.loader.Idle) :
    (Workspace.new settings disk).builtin.files = [] := by
  have hsettings : (withBuiltin settings Library.empty).settings.builtinLibraries = [] := h
  unfold Workspace.new rebuild
  dsimp only
  rw [hsettings, List.foldl_nil]
  unfold compileLibraryText
  rw [Loading.files_compileText hidle]
  rfl

/-- A workspace around a library without files is an empty one with the library built in. -/
theorem withBuiltin_of_files {lib : Library} (h : lib.files = []) :
    withBuiltin {} lib = { bare with builtin := lib } := by
  unfold bare withBuiltin
  rw [h]
  rfl

/-- A workspace with a built-in library that has been compiled from no files comes about by the
public operations. -/
theorem Reachable.around {w : Workspace} (h : w.Reachable) (hfiles : w.builtin.files = []) :
    Reachable { bare with builtin := w.builtin } := by
  rw [← withBuiltin_of_files hfiles]
  exact .withBuiltin {} h

/-- A workspace with nothing but the standard library. -/
def standard : Workspace := { bare with builtin := (Workspace.new {} Disk.empty).builtin }

/-- The standard workspace comes about by the public operations. -/
theorem reachable_standard : standard.Reachable :=
  (Reachable.new {} Disk.empty).around (files_new_of_idle rfl (Loading.idle_loader_empty _))

/-- A workspace with nothing of its own but the built-in library is, when it has been reset, an
empty one around it. -/
theorem reset_eq_of_kept {w : Workspace} (hsettings : w.settings = {})
    (huser : w.user = Library.empty) (hcompiled : w.compiled = ∅) :
    w.reset = { bare with builtin := w.builtin } := by
  unfold reset
  rw [hsettings, huser, hcompiled]
  rfl

end Workspace

namespace StandardLibrary

/-- The tokens of the standard library, line by line. -/
def tokens : Tokenized :=
  Tokenized.ofPieces (Lexer.lexText (lines.flatMap fun line => line.toList ++ ['\n']))

/-- The text of the standard library is cut into the tokens that are listed. -/
theorem tokenize_text : tokenize text = tokens := by
  have htext : text.toList = lines.flatMap fun line => line.toList ++ ['\n'] := by
    unfold text
    generalize lines = rows
    rw [String.toList_join, List.flatMap_map]
    simp only [String.toList_append]
    rfl
  unfold tokenize tokens
  rw [htext]

end StandardLibrary

end FlatNet
