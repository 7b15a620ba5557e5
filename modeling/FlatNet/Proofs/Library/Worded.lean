import FlatNet.Proofs.Compilation
import FlatNet.Proofs.Reading.Worded

/-!
# Workspaces of words

In every workspace that comes about by the public operations the names in all expressions are words:
texts are read as words, resolution gives elements the parameters of models and sub-circuits, whose
names are words, and libraries consist of definitions that have been read and resolved.
-/

set_option autoImplicit false

namespace FlatNet

/-! ## Resolution -/

/-- Parameters stay worded when worded ones are added. -/
theorem NameMap.Worded.foldl_insertIfNew {m : NameMap Expr} (h : m.Worded)
    {entries : List (String × Expr)} (hentries : ∀ entry ∈ entries, entry.2.Worded) :
    NameMap.Worded (entries.foldl (fun m entry => m.insertIfNew entry.1 entry.2) m) := by
  intro name value hvalue
  rcases NameMap.getElem?_foldl_insertIfNew hvalue with hold | hmem
  · exact h name value hold
  · exact hentries _ hmem

/-- Every entry of worded parameters is worded. -/
theorem NameMap.Worded.of_mem_toList {m : NameMap Expr} (h : m.Worded) :
    ∀ entry ∈ m.toList, entry.2.Worded := by
  intro entry hentry
  exact h entry.1 entry.2 (Std.ExtTreeMap.mem_toList_iff_getElem?_eq_some.1 hentry)

/-- The libraries that names are resolved against are worded. -/
structure Surroundings.Worded (s : Surroundings) : Prop where
  user : s.user.Worded
  builtin : s.builtin.Worded

section Resolution

variable {s : Surroundings} {defs : Forest} {e : Element}

/-- A model that is found in worded surroundings has worded parameters. -/
theorem Surroundings.Worded.of_findModel? (hs : s.Worded) (hdefs : Forest.Worded defs)
    {owner : Definition} (howner : owner.Worded) {name : String} {card : ModelCard}
    (h : s.findModel? defs owner name = some card) : card.params.Worded := by
  rcases Surroundings.mem_models_of_findModel? h with h | ⟨scope, d, hd, h⟩ | h | h
  · exact howner.models card h
  · exact (hdefs scope d hd).models card h
  · exact hs.user.models card h
  · exact hs.builtin.models card h

/-- A sub-circuit that is found in worded surroundings is worded. -/
theorem Surroundings.Worded.of_findExpansion? (hs : s.Worded) (hdefs : Forest.Worded defs)
    {expansion : String} {circuit : Definition}
    (h : s.findExpansion? defs expansion = some circuit) : circuit.Worded := by
  simp only [findExpansion?, Option.or_eq_some_iff] at h
  rcases h with h | ⟨-, h⟩
  · exact hs.builtin.circuits _ _ h
  · split at h
    · exact hdefs _ _ h
    · simp at h

namespace Element

/-- An element stays worded with worded defaults. -/
theorem Worded.withDefaults (he : e.Worded) {defaults : List (String × Expr)}
    (h : ∀ entry ∈ defaults, entry.2.Worded) : (e.withDefaults defaults).Worded :=
  ⟨he.refDes, he.params.foldl_insertIfNew h⟩

/-- The binding of an element is no matter of its words. -/
theorem Worded.rebind (he : e.Worded) (binding : Binding) :
    Element.Worded { e with binding } := ⟨he.refDes, he.params⟩

/-- Binding to a primitive model keeps an element worded. -/
theorem worded_bindPrimitive (hs : s.Worded) (hdefs : Forest.Worded defs) (he : e.Worded)
    (p : Primitive) : (e.bindPrimitive s defs p).element.Worded := by
  unfold bindPrimitive
  split
  · refine (he.withDefaults ?_).rebind _
    intro entry hentry
    obtain ⟨spec, -, rfl⟩ := List.mem_map.1 hentry
    exact Expr.worded_num _
  · split
    · exact he
    · rename_i circuit hcircuit
      have hformals := (hs.of_findExpansion? hdefs hcircuit).formals
      exact (he.withDefaults hformals.of_mem_toList).rebind _

/-- Binding to a named model keeps an element worded. -/
theorem worded_bindModel (hs : s.Worded) (hdefs : Forest.Worded defs) (he : e.Worded)
    (p : Primitive) {card : Option ModelCard}
    (hcard : ∀ c ∈ card, c.params.Worded) : (e.bindModel s defs p card).element.Worded := by
  unfold bindModel
  split
  · refine worded_bindPrimitive hs hdefs ?_ p
    cases card with
    | none => exact he
    | some c =>
      refine he.withDefaults fun entry hentry => ?_
      exact (hcard c rfl).of_mem_toList entry (List.mem_of_mem_filter hentry)
  · exact he

/-- Binding an element keeps it worded. -/
theorem worded_bind (hs : s.Worded) (hdefs : Forest.Worded defs) (he : e.Worded)
    {owner : Definition} (howner : owner.Worded) : (e.bind s defs owner).element.Worded := by
  have hbound := e.boundBy_bind s defs owner
  generalize e.bind s defs owner = b at hbound ⊢
  cases hbound with
  | circuit _ _ => exact he.rebind _
  | primitive _ _ => exact worded_bindModel hs hdefs he _ (by simp)
  | card _ _ hcard _ =>
    refine worded_bindModel hs hdefs he _ fun c hc => ?_
    obtain rfl := Option.some.inj hc
    exact hs.of_findModel? hdefs howner hcard
  | unknownCircuit _ _ | unknownModel _ _ _ | unknownBase _ _ => exact he

end Element

/-- Resolution keeps a definition worded. -/
theorem Definition.Worded.resolved {d : Definition} (h : d.Worded) (hs : s.Worded)
    (hdefs : Forest.Worded defs) : (d.resolved s defs).Worded := by
  refine ⟨fun e' he' => ?_, h.models, h.formals, h.params⟩
  obtain ⟨e, he, rfl⟩ := mem_values_resolved.1 he'
  unfold bindOne
  split
  · exact Element.worded_bind hs hdefs (h.elements e he) h
  · exact h.elements e he

/-- The empty forest is worded. -/
theorem Forest.worded_empty : Forest.Worded ∅ := by
  intro path d hd
  simp at hd

/-- Resolution keeps a forest worded. -/
theorem Forest.Worded.resolve {forest : Forest} (h : Forest.Worded forest) (hs : s.Worded) :
    Forest.Worded (forest.resolve s).1 := by
  refine List.foldlRecOn forest.keys (resolveAt s) (b := (forest, []))
    (motive := fun state => Forest.Worded state.1) h fun state hstate path _ => ?_
  cases hd : state.1[path]? with
  | none =>
    unfold resolveAt
    rw [hd]
    exact hstate
  | some d =>
    rw [resolveAt_of_getElem? hd]
    exact hstate.insert ((hstate path d hd).resolved hs hstate) path

end Resolution

/-! ## Libraries -/

/-- The empty library is worded. -/
theorem Library.worded_empty : Library.empty.Worded where
  circuits := Forest.worded_empty
  models card hcard := absurd (NameMap.mem_values.1 hcard) (by simp [Library.empty])
  params := .empty

/-- A library stays worded when the definitions of a text are added. -/
theorem Library.Worded.promote {lib : Library} (h : lib.Worded) {defs : Forest}
    (hdefs : Forest.Worded defs) : (lib.promote defs).Worded := by
  have hkept : Forest.Worded (Library.admissible defs) := fun path d hd =>
    hdefs path d (errors_of_admissible hd).1
  have hcircuits : Forest.Worded (NameMap.keepFirst lib.circuits ((admissible defs).erase "")) := by
    intro path d hd
    rcases NameMap.getElem?_keepFirst hd with hd | hd
    · exact h.circuits path d hd
    · exact hkept path d (NameMap.getElem?_of_erase hd)
  unfold Library.promote
  dsimp only
  split
  · rename_i root hroot
    have hroot := hkept "" root hroot
    refine ⟨hcircuits, fun card hcard => ?_, fun name value hvalue => ?_⟩
    · obtain ⟨name, hname⟩ := NameMap.mem_values.1 hcard
      rcases NameMap.getElem?_keepFirst hname with hname | hname
      · exact h.models card (NameMap.mem_values.2 ⟨name, hname⟩)
      · exact hroot.models card (NameMap.mem_values.2 ⟨name, hname⟩)
    · rcases NameMap.getElem?_keepFirst hvalue with hvalue | hvalue
      · exact h.params name value hvalue
      · exact hroot.params name value hvalue
  · exact ⟨hcircuits, h.models, h.params⟩

namespace Workspace

variable {w : Workspace}

/-- A library may be exchanged for a worded one. -/
theorem Worded.updateLibrary (h : w.Worded) (kind : LibraryKind) {f : Library → Library}
    (hf : ∀ lib : Library, lib.Worded → (f lib).Worded) : (w.updateLibrary kind f).Worded := by
  cases kind with
  | builtin => exact ⟨h.forest, h.opened, h.user, hf _ h.builtin⟩
  | user => exact ⟨h.forest, h.opened, hf _ h.user, h.builtin⟩

/-- Names are resolved in a worded workspace against worded libraries. -/
theorem Worded.surroundings (h : w.Worded) (store : Store) :
    (Loading.surroundings store w).Worded := ⟨h.user, h.builtin⟩

end Workspace

namespace Loading

/-- The definitions of a text are worded if all that have been read are. -/
theorem worded_extracted {forest : Forest} (h : Forest.Worded forest) (space : String) :
    Forest.Worded (extracted forest space) := by
  refine List.foldlRecOn _ _ (b := (∅ : Forest)) (motive := Forest.Worded) Forest.worded_empty
    fun defs hdefs entry hentry => ?_
  have hmem := List.mem_of_mem_filter hentry
  have hd := h entry.1 entry.2 (Std.ExtTreeMap.mem_toList_iff_getElem?_eq_some.1 hmem)
  have hmoved : Definition.Worded { entry.2 with path := Scope.relativeTo space entry.1 } :=
    ⟨hd.elements, hd.models, hd.formals, hd.params⟩
  exact hdefs.insert hmoved _

/-- Compiling a library text keeps the workspace worded. -/
theorem worded_compileText {load : Loader} (hload : load.KeepsWorded) {w : Workspace}
    (h : w.Worded) (kind : LibraryKind) (label text : String) :
    (compileText load kind label text w).1.Worded := by
  have hbare : Workspace.Worded { w with opened := [] } :=
    ⟨h.forest, List.forall_mem_nil _, h.user, h.builtin⟩
  have hread := worded_readSource hload hbare ⟨label, .library kind⟩ (namespaceOf label) text
  unfold compileText
  dsimp only
  have hreleased : Workspace.Worded
      { (readSource load ⟨label, .library kind⟩ (namespaceOf label) text
          { w with opened := [] }).1 with
        opened := w.opened
        forest := remaining (readSource load ⟨label, .library kind⟩ (namespaceOf label) text
          { w with opened := [] }).1.forest (namespaceOf label) } := by
    refine ⟨fun path d hd => ?_, h.opened, hread.user, hread.builtin⟩
    unfold remaining at hd
    rw [Std.ExtTreeMap.getElem?_filter'] at hd
    exact hread.forest path d (Option.eq_some_of_filter_eq_some hd)
  refine Workspace.Worded.updateLibrary ?_ kind fun lib hlib => ?_
  · exact ⟨hreleased.forest, hreleased.opened, hreleased.user, hreleased.builtin⟩
  · exact hlib.promote ((worded_extracted hread.forest _).resolve (hreleased.surroundings _))

/-- Compiling a library file keeps the workspace worded. -/
theorem worded_compileFile {load : Loader} (hload : load.KeepsWorded) {w : Workspace}
    (h : w.Worded) (disk : Disk) (kind : LibraryKind) (path : String) :
    (compileFile load disk kind path w).1.Worded := by
  have hnoted : ∀ canonical, Workspace.Worded { w with compiled := w.compiled.insert canonical } :=
    fun _ => ⟨h.forest, h.opened, h.user, h.builtin⟩
  have hcompiles := compiles_compileFile load disk kind path w
  generalize compileFile load disk kind path w = result at hcompiles ⊢
  cases hcompiles with
  | missing _ | known _ _ => exact h
  | unreadable _ _ _ => exact hnoted _
  | @compiled canonical text _ _ _ _ =>
    have hcompiled := worded_compileText hload (hnoted canonical) kind path text
    have hnote : ∀ lib : Library, lib.Worded → (lib.noteFile canonical).Worded :=
      fun _ hlib => ⟨hlib.circuits, hlib.models, hlib.params⟩
    have hfinal := hcompiled.updateLibrary kind hnote
    exact hfinal

/-- Loading a library by its name keeps the workspace worded. -/
theorem keepsWorded_compileNamed {load : Loader} (hload : load.KeepsWorded) (disk : Disk) :
    Loader.KeepsWorded (compileNamed load disk) := by
  intro kind name w h
  have hloads := loads_compileNamed load disk kind name w
  generalize compileNamed load disk kind name w = result at hloads ⊢
  cases hloads with
  | standard _ | missing _ _ => exact h
  | found _ _ => exact worded_compileFile hload h disk kind _

/-- Loaders of any nesting keep workspaces worded. -/
theorem keepsWorded_loader (disk : Disk) (n : Nat) : Loader.KeepsWorded (loader disk n) := by
  induction n with
  | zero => exact fun _ _ _ h => h
  | succ n ih => exact keepsWorded_compileNamed ih disk

end Loading

/-! ## Workspaces -/

namespace Workspace

variable {w : Workspace}

/-- A workspace around a worded library is worded. -/
theorem worded_withBuiltin (settings : Settings) {builtin : Library} (h : builtin.Worded) :
    (withBuiltin settings builtin).Worded :=
  ⟨Forest.worded_empty, List.forall_mem_nil _, Library.worded_empty, h⟩

/-- Forgetting the last compilation keeps the workspace worded. -/
theorem Worded.reset (h : w.Worded) : w.reset.Worded :=
  ⟨Forest.worded_empty, List.forall_mem_nil _, h.user, h.builtin⟩

/-- A library text that is compiled at the outside keeps the workspace worded. -/
theorem Worded.compileLibraryText (h : w.Worded) (disk : Disk) (kind : LibraryKind)
    (label text : String) : (w.compileLibraryText disk kind label text).1.Worded := by
  unfold Workspace.compileLibraryText
  exact Loading.worded_compileText (Loading.keepsWorded_loader disk _) h kind label text

/-- A library file that is compiled at the outside keeps the workspace worded. -/
theorem Worded.compileLibrary (h : w.Worded) (disk : Disk) (kind : LibraryKind) (path : String) :
    (w.compileLibrary disk kind path).1.Worded := by
  unfold Workspace.compileLibrary
  exact Loading.worded_compileFile (Loading.keepsWorded_loader disk _) h disk kind path

/-- Reading a netlist keeps the workspace worded. -/
theorem Worded.readNetlist (h : w.Worded) (disk : Disk) (label text : String) :
    (w.readNetlist disk label text).Worded := by
  unfold Workspace.readNetlist Workspace.readSource
  exact worded_readSource (Loading.keepsWorded_loader disk _) h.reset _ _ text

/-- Resolution keeps the workspace worded. -/
theorem Worded.resolve (h : w.Worded) : w.resolve.1.Worded :=
  ⟨h.forest.resolve (h.surroundings _), h.opened, h.user, h.builtin⟩

/-- Compiling the built-in libraries anew makes a workspace worded. -/
theorem worded_rebuild (w : Workspace) (disk : Disk) : (w.rebuild disk).Worded := by
  unfold rebuild
  dsimp only
  have hbare : Workspace.Worded
      { w.reset with user := Library.empty, builtin := Library.empty, compiled := ∅ } :=
    ⟨Forest.worded_empty, List.forall_mem_nil _, Library.worded_empty, Library.worded_empty⟩
  have hstandard := hbare.compileLibraryText disk .builtin StandardLibrary.fileName
    StandardLibrary.text
  generalize w.settings.builtinLibraries = paths
  revert hstandard
  generalize (Workspace.compileLibraryText _ disk .builtin _ _).1 = v
  intro hv
  induction paths generalizing v with
  | nil => exact hv
  | cons path rest ih =>
    refine ih _ ?_
    have hcompiled := hv.compileLibrary disk .builtin path
    unfold compileConfigured
    split
    · rename_i hpair
      rwa [hpair] at hcompiled
    · rename_i hpair
      rw [hpair] at hcompiled
      exact ⟨hcompiled.forest, hcompiled.opened, hcompiled.user, hcompiled.builtin⟩

/-- Compiling a netlist keeps the workspace worded. -/
theorem Worded.compile (h : w.Worded) (disk : Disk) (label text : String) :
    (w.compile disk label text).1.Worded := by
  have hread := h.readNetlist disk label text
  rw [compile_eq]
  generalize w.readNetlist disk label text = read at hread ⊢
  have hresolved := hread.resolve
  unfold finishNetlist
  split
  · exact hread
  · split
    · exact hresolved
    · exact ⟨hresolved.forest, hresolved.opened, hresolved.user, hresolved.builtin⟩

/-- In every workspace that comes about the names in all expressions are words. -/
theorem Reachable.worded (h : w.Reachable) : w.Worded := by
  induction h with
  | new settings disk => exact worded_rebuild _ disk
  | withBuiltin settings _ ih => exact worded_withBuiltin settings ih.builtin
  | compileLibraryText _ disk kind label text ih => exact ih.compileLibraryText disk kind label text
  | compileLibrary _ disk kind path ih => exact ih.compileLibrary disk kind path
  | includeLibrary _ disk kind name ih => exact Loading.keepsWorded_loader disk _ kind name _ ih
  | compile _ disk label text ih => exact ih.compile disk label text
  | reset _ ih => exact ih.reset
  | rebuild _ disk _ => exact worded_rebuild _ disk
  | configure _ settings ih => exact ⟨ih.forest, ih.opened, ih.user, ih.builtin⟩

end Workspace

end FlatNet
