import FlatNet.Proofs.Library.Settled
import FlatNet.Proofs.Library.Standard

/-!
# Promotion

A sub-circuit in which an error has been found is not promoted into a library, nor is anything
inside it.  This is so for all errors of lines and of resolution.  Faults of tokens, however, are
counted in the text as a whole, and the errors of a sub-circuit that is dropped for its name are
lost with it; they keep nothing out.
-/

set_option autoImplicit false

namespace FlatNet

open Loading (namespaceOf)
open Outline (openOn)

namespace Forest

variable {forest forest' : Forest}

/-- A part of a plain forest is plain. -/
theorem Plain.of_subset (h : forest.Plain)
    (hsub : ∀ (path : String) (d : Definition), forest'[path]? = some d →
      forest[path]? = some d) : forest'.Plain := by
  intro path hpath
  rw [Std.ExtTreeMap.mem_iff_isSome_getElem?] at hpath
  obtain ⟨d, hd⟩ := Option.isSome_iff_exists.1 hpath
  exact h path (Std.ExtTreeMap.mem_iff_isSome_getElem?.2 (by rw [hsub path d hd]; rfl))

/-- The empty forest is plain. -/
theorem plain_empty : Forest.Plain ∅ := fun path hpath => absurd hpath (by simp)

/-- Resolution adds no paths. -/
theorem Plain.resolve (h : forest.Plain) (s : Surroundings) : (forest.resolve s).1.Plain := by
  intro path hpath
  rw [Std.ExtTreeMap.mem_iff_isSome_getElem?] at hpath
  obtain ⟨d, hd⟩ := Option.isSome_iff_exists.1 hpath
  obtain ⟨d₀, -, hd₀, -⟩ := resolve_spec hd
  exact h path (Std.ExtTreeMap.mem_iff_isSome_getElem?.2 (by rw [hd₀]; rfl))

/-- A plain forest has no definitions of a library text. -/
theorem Plain.getElem?_of_belongsTo (h : forest.Plain) {label path : String}
    (hpath : Loading.belongsTo (namespaceOf label) path = true) : forest[path]? = none :=
  Std.ExtTreeMap.getElem?_eq_none fun hmem => h path hmem (Loading.colon_mem_of_belongsTo hpath)

end Forest

namespace Workspace

section Plain

variable {w : Workspace} (disk : Disk)

/-- Compiling a library text leaves the forest plain. -/
theorem plain_compileLibraryText (h : w.forest.Plain) (kind : LibraryKind) (label text : String) :
    (w.compileLibraryText disk kind label text).1.forest.Plain := by
  have hload : disk.loader.Frames disk := Loading.frames_loader disk _
  obtain ⟨-, hsub, -⟩ := Loading.frame_compileText hload kind label text w
  unfold compileLibraryText
  exact h.of_subset fun path d hd => (hsub path d hd).1

/-- What keeps a plain forest, apart from taking definitions out, leaves it plain. -/
theorem plain_of_frame (h : w.forest.Plain) {w' : Workspace}
    (hframe : Loading.Frame disk (fun _ => False) w w') : w'.forest.Plain :=
  h.of_subset fun path d hd => hframe.forest path d (fun hfalse => hfalse) hd

/-- Compiling a library file leaves the forest plain. -/
theorem plain_compileLibrary (h : w.forest.Plain) (kind : LibraryKind) (path : String) :
    (w.compileLibrary disk kind path).1.forest.Plain := by
  have hload : disk.loader.Frames disk := Loading.frames_loader disk _
  exact plain_of_frame disk h (Loading.frame_compileFile hload kind path w).1

/-- The forest is plain when the libraries have been compiled anew. -/
theorem plain_rebuild (w : Workspace) : (w.rebuild disk).forest.Plain := by
  unfold rebuild
  dsimp only
  have hstandard := plain_compileLibraryText disk
    (w := { w.reset with user := Library.empty, builtin := Library.empty, compiled := ∅ })
    Forest.plain_empty .builtin StandardLibrary.fileName StandardLibrary.text
  generalize w.settings.builtinLibraries = paths
  revert hstandard
  generalize (compileLibraryText _ disk .builtin _ _).1 = v
  intro hv
  induction paths generalizing v with
  | nil => exact hv
  | cons path rest ih =>
    refine ih _ ?_
    have hcompiled := plain_compileLibrary disk hv .builtin path
    unfold compileConfigured
    split
    · rename_i hpair
      rwa [hpair] at hcompiled
    · rename_i hpair
      rw [hpair] at hcompiled
      exact hcompiled

/-- The definitions of a netlist are a plain forest. -/
theorem plain_readNetlist (w : Workspace) (label text : String) :
    (w.readNetlist disk label text).forest.Plain := by
  have hload : disk.loader.Frames disk := Loading.frames_loader disk _
  have hwhole := w.ofWholeNetlist_readerWith hload label text
  obtain ⟨root, -, -, hsettle⟩ := hwhole.settle_eq
  rw [readNetlist_eq, hsettle]
  intro path hpath
  rcases Std.ExtTreeMap.mem_insert.1 hpath with heq | hold
  · rw [← Std.LawfulEqCmp.compare_eq_iff_eq.1 heq]
    decide
  · exact hwhole.plain path hold

/-- The definitions that a compilation leaves are a plain forest. -/
theorem plain_compile (w : Workspace) (label text : String) :
    (w.compile disk label text).1.forest.Plain := by
  have hread := w.plain_readNetlist disk label text
  rw [compile_eq]
  generalize w.readNetlist disk label text = read at hread ⊢
  unfold finishNetlist
  split
  · exact hread
  · split
    · exact hread.resolve _
    · exact hread.resolve _

/-- Between the public operations there are only definitions of the last netlist. -/
theorem Reachable.plain (h : w.Reachable) : w.forest.Plain := by
  induction h with
  | new settings disk => exact plain_rebuild disk _
  | withBuiltin settings _ _ => exact Forest.plain_empty
  | compileLibraryText _ disk kind label text ih =>
    exact plain_compileLibraryText disk ih kind label text
  | compileLibrary _ disk kind path ih => exact plain_compileLibrary disk ih kind path
  | includeLibrary _ disk kind name ih =>
    exact plain_of_frame disk ih ((Loading.frames_loader disk _).frame kind name _)
  | compile _ disk label text _ => exact plain_compile disk _ label text
  | reset _ _ => exact Forest.plain_empty
  | rebuild _ disk _ => exact plain_rebuild disk _
  | configure _ settings ih => exact ih

end Plain

variable (w : Workspace) (disk : Disk) (kind : LibraryKind) (label text : String)

/-- What is found wrong with a library text itself, apart from further libraries that it loads. -/
def textFindings : List Finding :=
  (Loading.compileText disk.loader.silenced kind label text w.unheard).1.diagnostics.findings

/-- The definition is new in the library when those of the text have been added. -/
def Promotes (path : String) (d : Definition) : Prop :=
  ((w.compileLibraryText disk kind label text).1.library kind).circuits[path]? = some d ∧
    ((Loading.released label w
      (Loading.readerOf disk.loader kind label text w)).library kind).circuits[path]? = none

/-- The sub-circuit to whose body the place of the finding belongs is not promoted, nor is any
inside it. -/
def KeepsOut (f : Finding) : Prop :=
  ∀ origin, f.origin = some origin → ∀ start, InBody (tokenize text).lines start origin.line →
    ∀ path d, w.Promotes disk kind label text path d →
      ∃ place, d.origin = some place ∧ start ∉ openOn (tokenize text).lines place.line

/-- Every error in a body keeps the sub-circuit out, with all that is inside it. -/
def KeepsFaultyOut : Prop :=
  ∀ f ∈ w.textFindings disk kind label text, f.isError = true → w.KeepsOut disk kind label text f

/-- The finding is not counted in the sub-circuit to whose body it belongs: it is a fault of a
token, or the sub-circuit has been dropped for its name. -/
def Uncounted (f : Finding) : Prop :=
  f ∈ Reader.faults label text ∨
    ∃ origin start, f.origin = some origin ∧ InBody (tokenize text).lines start origin.line ∧
      Dropped (w.textFindings disk kind label text) start

/-- Compiling a text adds the admissible ones of its definitions to the library. -/
theorem library_compileText (load : Loader) :
    (Loading.compileText load kind label text w).1.library kind =
      ((Loading.released label w (Loading.readerOf load kind label text w)).library kind).promote
        (Loading.resolutionOf kind label w (Loading.readerOf load kind label text w)).1 := by
  rw [Loading.compileText_eq]
  dsimp only
  generalize Loading.readerOf load kind label text w = r
  cases kind <;> rfl

/-- The reader of a library text in a workspace in which nothing has been reported, with libraries
that keep to themselves what is found wrong in them. -/
def quietReader : Reader := Loading.readerOf disk.loader.silenced kind label text w.unheard

/-- What is found wrong with a library text is what its reader finds and what its resolution
finds. -/
theorem textFindings_eq :
    w.textFindings disk kind label text =
      (w.quietReader disk kind label text).findings ++
        (Loading.resolutionOf kind label w.unheard (w.quietReader disk kind label text)).2 :=
  Loading.diagnostics_compileText _ kind label text w.unheard

/-- What is resolved does not depend on what has been reported. -/
theorem resolutionOf_quietReader :
    Loading.resolutionOf kind label w (Loading.readerOf disk.loader kind label text w) =
      Loading.resolutionOf kind label w.unheard (w.quietReader disk kind label text) := by
  have hagrees : disk.loader.Agrees disk.loader := Loading.agrees_loader disk _
  have hframes : disk.loader.Frames disk := Loading.frames_loader disk _
  have hread := Loading.unheard_readerOf hagrees.silenced hframes kind label text
    (show w.unheard = w.unheard.unheard from rfl)
  rw [Loading.resolutionOf_unheard kind label w, hread]
  exact (Loading.resolutionOf_unheard kind label w.unheard _).symm

/-- What is found wrong with a text itself is reported, in its order, behind what has been reported
before. -/
theorem textFindings_sublist :
    (w.diagnostics.findings ++ w.textFindings disk kind label text).Sublist
      (w.compileLibraryText disk kind label text).1.diagnostics.findings := by
  have hload : disk.loader.Frames disk := Loading.frames_loader disk _
  have hagrees : disk.loader.Agrees disk.loader := Loading.agrees_loader disk _
  have hextends : disk.loader.Extends := Loading.extends_loader disk _
  have hsim := Reader.simulation_silenced hagrees hload hextends ⟨label, .library kind⟩
    w.diagnostics.findings
  obtain ⟨-, hsub⟩ : _ ∧ (w.diagnostics.findings ++
      (w.quietReader disk kind label text).findings).Sublist
        (Loading.readerOf disk.loader kind label text w).findings := by
    refine hsim.ofText ⟨⟨rfl, Nat.succ_pos _⟩, ?_⟩
    show (w.diagnostics.findings ++ []).Sublist w.diagnostics.findings
    rw [List.append_nil]
  unfold compileLibraryText
  rw [textFindings_eq, Loading.diagnostics_compileText, resolutionOf_quietReader,
    ← List.append_assoc]
  exact hsub.append (List.Sublist.refl _)

variable {w disk kind label text}

/-- What is known of the definitions of a text that has been read between the public operations. -/
theorem Reachable.settled (h : w.Reachable) (disk : Disk) (kind : LibraryKind)
    (label text : String) :
    Settled (tokenize text).lines (Reader.faults label text) (namespaceOf label)
      (w.quietReader disk kind label text).settle.work.forest
      (w.quietReader disk kind label text).findings := by
  have hload : disk.loader.Frames disk := Loading.frames_loader disk _
  obtain ⟨⟨bound, htracked⟩, hlength⟩ := Reader.tracked_ofText hload
    (w := { w.unheard with opened := [] }) rfl rfl
    (fun path hpath => h.plain.getElem?_of_belongsTo hpath) ⟨label, .library kind⟩ text
  exact htracked.settled hlength

/-- What is promoted begins on a line of the text, and no error has been found in it or in one of
those around it. -/
theorem exists_of_promotes (h : w.Reachable) {path : String} {d : Definition}
    (hd : w.Promotes disk kind label text path d) :
    ∃ place, d.origin = some place ∧
      ∀ f ∈ w.textFindings disk kind label text, f.isError = true →
        f ∉ Reader.faults label text → ∀ origin, f.origin = some origin →
          ∀ start, InBody (tokenize text).lines start origin.line →
            place.line ≠ start ∧ (start ∈ openOn (tokenize text).lines place.line →
              Dropped (w.textFindings disk kind label text) start) := by
  have hsettled := h.settled disk kind label text
  obtain ⟨hadded, hnew⟩ := hd
  unfold compileLibraryText at hadded
  rw [library_compileText, resolutionOf_quietReader] at hadded
  rw [textFindings_eq]
  unfold Loading.resolutionOf at hadded ⊢
  obtain ⟨outside, d₀, place, hclosed, hplace, hmark, hclean⟩ :=
    hsettled.exists_of_promote hadded hnew
  refine ⟨place, hplace, fun f hf herror hfault origin horigin start hstart => ⟨?_, fun hin => ?_⟩⟩
  · rintro rfl
    have herrors := hsettled.hasErrors_of_mem hf herror hfault horigin hstart hclosed hmark
    rw [hclean outside d₀ _ hclosed hmark (Loading.belongsTo_self _)] at herrors
    exact absurd herrors (by simp)
  · rcases hsettled.around outside d₀ hclosed _ hmark start hin with hdropped | hknown
    · exact hdropped.mono (List.subset_append_left _ _)
    · obtain ⟨around, outer, houter, hstarts, hbelongs⟩ := hknown
      have herrors := hsettled.hasErrors_of_mem hf herror hfault horigin hstart houter hstarts
      rw [hclean around outer start houter hstarts hbelongs] at herrors
      exact absurd herrors (by simp)

/-- An error in a body keeps the sub-circuit out of the library, with all that is inside it, unless
it is a fault of a token or the sub-circuit has been dropped for its name; even then only what is
inside a dropped sub-circuit can come into the library.  So the errors that may fail to keep a
sub-circuit out are those that are not counted in it. -/
theorem keepsFaultyOut_iff (h : w.Reachable) (disk : Disk) (kind : LibraryKind)
    (label text : String) :
    (w.diagnostics.findings ++ w.textFindings disk kind label text).Sublist
        (w.compileLibraryText disk kind label text).1.diagnostics.findings ∧
      (∀ f ∈ w.textFindings disk kind label text, f.isError = true →
        ¬w.Uncounted disk kind label text f → w.KeepsOut disk kind label text f) ∧
      (∀ f ∈ w.textFindings disk kind label text, f.isError = true →
        f ∉ Reader.faults label text → ∀ origin, f.origin = some origin →
          ∀ start, InBody (tokenize text).lines start origin.line →
            ∀ path d, w.Promotes disk kind label text path d →
              ∃ place, d.origin = some place ∧ place.line ≠ start) ∧
      (w.KeepsFaultyOut disk kind label text ↔
        ∀ f ∈ w.textFindings disk kind label text, f.isError = true →
          w.Uncounted disk kind label text f → w.KeepsOut disk kind label text f) := by
  have hcounted : ∀ f ∈ w.textFindings disk kind label text, f.isError = true →
      ¬w.Uncounted disk kind label text f → w.KeepsOut disk kind label text f := by
    intro f hf herror hcounts origin horigin start hstart path d hd
    obtain ⟨place, hplace, hkept⟩ := exists_of_promotes h hd
    have hfault : f ∉ Reader.faults label text := fun hfault => hcounts (.inl hfault)
    refine ⟨place, hplace, fun hin => hcounts (.inr ⟨origin, start, horigin, hstart, ?_⟩)⟩
    exact (hkept f hf herror hfault origin horigin start hstart).2 hin
  refine ⟨textFindings_sublist w disk kind label text, hcounted, ?_, ?_, ?_⟩
  · intro f hf herror hfault origin horigin start hstart path d hd
    obtain ⟨place, hplace, hkept⟩ := exists_of_promotes h hd
    exact ⟨place, hplace, (hkept f hf herror hfault origin horigin start hstart).1⟩
  · exact fun hkeeps f hf herror _ => hkeeps f hf herror
  · intro hkeeps f hf herror
    by_cases hcounts : w.Uncounted disk kind label text f
    · exact hkeeps f hf herror hcounts
    · exact hcounted f hf herror hcounts

/-- A library text with a sub-circuit whose resistor has a node missing. -/
def incompleteText : String := "\"a\"\n.subckt P a b\nR1 a\n.ends\n"

set_option maxRecDepth 100000 in
/-- What is found wrong with the text is the missing node of its resistor. -/
theorem textFindings_incomplete :
    standard.textFindings Disk.empty .user "a.lib" incompleteText =
      [.usual (.incompleteElement "R1" "expected 2 nodes, found 1") (some ⟨"a.lib", 3, 1⟩)] := by
  decide +kernel

/-- The tokens of the text are without faults. -/
theorem faults_incomplete : Reader.faults "a.lib" incompleteText = [] := by decide +kernel

/-- The sub-circuit with the incomplete resistor is kept out. -/
theorem keepsFaultyOut_incomplete :
    standard.Reachable ∧
      errorCount (standard.textFindings Disk.empty .user "a.lib" incompleteText) = 1 ∧
      standard.KeepsFaultyOut Disk.empty .user "a.lib" incompleteText := by
  refine ⟨reachable_standard, by rw [textFindings_incomplete]; rfl, ?_⟩
  refine (keepsFaultyOut_iff reachable_standard Disk.empty .user "a.lib" incompleteText).2.2.2.2 ?_
  rintro f - - (hfault | ⟨-, start, -, -, name, place, hdropped, -⟩)
  · rw [faults_incomplete] at hfault
    exact absurd hfault List.not_mem_nil
  · rw [textFindings_incomplete] at hdropped
    exact absurd (congrArg Finding.problem (List.mem_singleton.1 hdropped))
      (by simp [Finding.usual])

/-- A sub-circuit that is promoted although there is an error in its body, or in one around it. -/
theorem not_keepsFaultyOut_of_promoted (origin : Origin) (start : Nat) (path : String)
    (hf : (w.textFindings disk kind label text).any
      (fun f => f.isError && f.origin == some origin) = true)
    (hstart : InBody (tokenize text).lines start origin.line)
    (hd : (((w.compileLibraryText disk kind label text).1.library kind).circuits[path]?).any
      (fun d => d.origin.any fun place =>
        decide (start ∈ openOn (tokenize text).lines place.line)) = true)
    (hnew : (((Loading.released label w
      (Loading.readerOf disk.loader kind label text w)).library kind).circuits[path]?).isNone =
        true) :
    ¬w.KeepsFaultyOut disk kind label text := by
  intro hkeeps
  obtain ⟨f, hf, hboth⟩ := List.any_eq_true.1 hf
  obtain ⟨herror, horigin⟩ := Bool.and_eq_true_iff.1 hboth
  obtain ⟨d, hd, hplace⟩ := (Option.any_eq_true _ _).1 hd
  obtain ⟨place, hplace, hin⟩ := (Option.any_eq_true _ _).1 hplace
  obtain ⟨place', hplace', hout⟩ := hkeeps f hf herror origin (beq_iff_eq.1 horigin) start hstart
    path d ⟨hd, Option.isNone_iff_eq_none.1 hnew⟩
  obtain rfl := Option.some.inj (hplace.symm.trans hplace')
  exact hout (of_decide_eq_true hin)

/-- A library text with a sub-circuit in which an expression is faulty. -/
def misspeltText : String := "\"a\"\n.subckt P a b\nR1 a b 1 dcvar=\x7b1+\x7d\n.ends\n"

set_option maxRecDepth 100000 in
/-- The sub-circuit with the faulty expression is promoted. -/
theorem not_keepsFaultyOut_misspelt :
    standard.Reachable ∧ ¬standard.KeepsFaultyOut Disk.empty .user "a.lib" misspeltText :=
  ⟨reachable_standard, not_keepsFaultyOut_of_promoted ⟨"a.lib", 3, 16⟩ 2 "P" (by decide +kernel)
    (by decide +kernel) (by decide +kernel) (by decide +kernel)⟩

end Workspace

end FlatNet
