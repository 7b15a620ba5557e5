import FlatNet.Proofs.Library.Parsed
import FlatNet.Proofs.Promotion

/-!
# What the libraries are made of

When a library text has been read, its definitions are resolved and added to a library: this is a
`Promotion`.  Libraries that are loaded inside the text have made theirs before.  The journal of a
loader notes all promotions, at any nesting, and `Stock.Grows` says that nothing else changes what
the libraries contain, but for the lists of their files.
-/

set_option autoImplicit false

namespace FlatNet

/-! ## Contents of libraries -/

/-- Every entry of the map is one of the other map, with the same value. -/
def NameMap.Within {α : Type} (m m' : NameMap α) : Prop :=
  ∀ (name : String) (value : α), m[name]? = some value → m'[name]? = some value

/-- Entries stay when others are added without replacing any. -/
theorem NameMap.within_keepFirst {α : Type} (old new : NameMap α) :
    old.Within (old.keepFirst new) := fun _ _ h => getElem?_foldl_insertIfNew_of_getElem? h

namespace Library

/-- Every sub-circuit, model and global parameter of the library is one of the other library, with
the same content. -/
structure Within (lib lib' : Library) : Prop where
  circuits : lib.circuits.Within lib'.circuits
  models : lib.models.Within lib'.models
  params : lib.params.Within lib'.params

/-- The libraries have the same entries. -/
def SameEntries (lib lib' : Library) : Prop := ∃ files, lib' = { lib with files }

variable {lib lib' lib'' : Library}

/-- A library has its own entries. -/
theorem Within.refl (lib : Library) : lib.Within lib :=
  ⟨fun _ _ h => h, fun _ _ h => h, fun _ _ h => h⟩

/-- Entries that stay twice stay. -/
theorem Within.trans (h : lib.Within lib') (h' : lib'.Within lib'') : lib.Within lib'' :=
  ⟨fun path d hd => h'.circuits path d (h.circuits path d hd),
    fun name card hcard => h'.models name card (h.models name card hcard),
    fun name value hvalue => h'.params name value (h.params name value hvalue)⟩

/-- A library has the same entries as itself. -/
theorem SameEntries.refl (lib : Library) : lib.SameEntries lib := ⟨lib.files, rfl⟩

/-- Libraries with the entries of a third one have the same entries. -/
theorem SameEntries.trans (h : lib.SameEntries lib') (h' : lib'.SameEntries lib'') :
    lib.SameEntries lib'' := by
  obtain ⟨files, rfl⟩ := h
  obtain ⟨files', rfl⟩ := h'
  exact ⟨files', rfl⟩

/-- Libraries with the same entries have the same sub-circuits. -/
theorem SameEntries.circuits (h : lib.SameEntries lib') : lib'.circuits = lib.circuits := by
  obtain ⟨files, rfl⟩ := h
  rfl

/-- The same entries are, in particular, all there. -/
theorem SameEntries.within (h : lib.SameEntries lib') : lib.Within lib' := by
  obtain ⟨files, rfl⟩ := h
  exact ⟨fun _ _ h => h, fun _ _ h => h, fun _ _ h => h⟩

/-- Adding definitions puts the admissible ones, without the root, behind the sub-circuits that are
there. -/
theorem circuits_promote (lib : Library) (defs : Forest) :
    (lib.promote defs).circuits = lib.circuits.keepFirst ((admissible defs).erase "") := by
  unfold promote
  dsimp only
  split <;> rfl

/-- A definition that may be added is there afterwards, unless its path has been taken before. -/
theorem getElem?_circuits_promote (lib : Library) {defs : Forest} {path : String} {d : Definition}
    (h : ((admissible defs).erase "")[path]? = some d) :
    (lib.promote defs).circuits[path]? = some ((lib.circuits[path]?).getD d) := by
  rw [circuits_promote]
  exact NameMap.getElem?_foldl_insertIfNew_of_mem (NameMap.nodup_map_fst_toList _)
    (Std.ExtTreeMap.mem_toList_iff_getElem?_eq_some.2 h)

/-- Adding definitions leaves every entry as it is. -/
theorem within_promote (lib : Library) (defs : Forest) : lib.Within (lib.promote defs) := by
  refine ⟨?_, ?_, ?_⟩
  · rw [circuits_promote]
    exact NameMap.within_keepFirst _ _
  · unfold promote
    dsimp only
    split
    · exact NameMap.within_keepFirst _ _
    · exact fun _ _ h => h
  · unfold promote
    dsimp only
    split
    · exact NameMap.within_keepFirst _ _
    · exact fun _ _ h => h

end Library

namespace Stock

/-- The library of a kind. -/
def library (s : Stock) : LibraryKind → Library
  | .builtin => s.builtin
  | .user => s.user

/-- Changes the library of a kind. -/
def updateLibrary (s : Stock) (kind : LibraryKind) (f : Library → Library) : Stock :=
  match kind with
  | .builtin => { s with builtin := f s.builtin }
  | .user => { s with user := f s.user }

/-- Every entry of both libraries is one of them in the other stock, with the same content. -/
def Within (s s' : Stock) : Prop := ∀ kind, (s.library kind).Within (s'.library kind)

/-- Both libraries have the same entries in both stocks. -/
def SameEntries (s s' : Stock) : Prop := ∀ kind, (s.library kind).SameEntries (s'.library kind)

variable {s s' s'' : Stock}

/-- Entries of a stock that stay twice stay. -/
theorem Within.trans (h : s.Within s') (h' : s'.Within s'') : s.Within s'' :=
  fun kind => (h kind).trans (h' kind)

/-- A stock has the same entries as itself. -/
theorem SameEntries.refl (s : Stock) : s.SameEntries s := fun _ => .refl _

/-- Stocks with the entries of a third one have the same entries. -/
theorem SameEntries.trans (h : s.SameEntries s') (h' : s'.SameEntries s'') : s.SameEntries s'' :=
  fun kind => (h kind).trans (h' kind)

/-- Stocks with the same entries have, in particular, all of them. -/
theorem SameEntries.within (h : s.SameEntries s') : s.Within s' := fun kind => (h kind).within

/-- Changing a library changes it as told. -/
theorem library_updateLibrary (s : Stock) (kind : LibraryKind) (f : Library → Library) :
    (s.updateLibrary kind f).library kind = f (s.library kind) := by
  cases kind <;> rfl

/-- Changing one library leaves the other one. -/
theorem library_updateLibrary_of_ne {kind other : LibraryKind} (h : other ≠ kind) (s : Stock)
    (f : Library → Library) : (s.updateLibrary kind f).library other = s.library other := by
  cases kind <;> cases other <;> first | rfl | exact absurd rfl h

end Stock

/-! ## Promotions -/

/-- Definitions of a library text that are resolved and added to a library. -/
structure Promotion where
  kind : LibraryKind
  /-- The stock before the definitions are added. -/
  before : Stock
  /-- The definitions of the text, as they have been read. -/
  defs : Forest

namespace Promotion

/-- What the definitions are resolved against. -/
def surroundings (p : Promotion) : Surroundings :=
  ⟨p.kind.store, p.before.user, p.before.builtin, p.before.settings.laplaceSeverity⟩

/-- The definitions after resolution. -/
def resolved (p : Promotion) : Forest := (p.defs.resolve p.surroundings).1

/-- The stock when the definitions have been added. -/
def after (p : Promotion) : Stock := p.before.updateLibrary p.kind (·.promote p.resolved)

/-- The promotion adds the definition to its library. -/
def Adds (p : Promotion) (path : String) (d : Definition) : Prop :=
  (p.after.library p.kind).circuits[path]? = some d ∧
    (p.before.library p.kind).circuits[path]? = none

variable (p : Promotion)

/-- A promotion adds the resolved definitions to the library of its kind. -/
theorem library_after :
    p.after.library p.kind = (p.before.library p.kind).promote p.resolved :=
  Stock.library_updateLibrary _ _ _

/-- A promotion into the built-in library adds the resolved definitions to it. -/
theorem builtin_after (h : p.kind = .builtin) :
    p.after.builtin = p.before.builtin.promote p.resolved := by
  have hafter := p.library_after
  rw [h] at hafter
  exact hafter

/-- A promotion only adds entries. -/
theorem within_after : p.before.Within p.after := by
  intro kind
  by_cases h : kind = p.kind
  · subst h
    rw [library_after]
    exact Library.within_promote _ _
  · rw [after, Stock.library_updateLibrary_of_ne h]
    exact .refl _

variable {p}

/-- What is added to a library is one of the definitions after resolution. -/
theorem Adds.resolved {path : String} {d : Definition} (h : p.Adds path d) :
    path ≠ "" ∧ p.resolved[path]? = some d ∧ Library.isExcluded p.resolved path = false := by
  obtain ⟨hadded, hnew⟩ := h
  rw [library_after] at hadded
  exact Library.getElem?_promote hadded hnew

end Promotion

namespace Stock

/-- The second stock comes about from the first one by promotions; apart from them no entry of a
library changes. -/
inductive Grows : Stock → List Promotion → Stock → Prop
  | same {s s' : Stock} (hsame : s.SameEntries s') : Grows s [] s'
  | promote {s s' : Stock} {p : Promotion} {ps : List Promotion} (hsame : s.SameEntries p.before)
      (hrest : Grows p.after ps s') : Grows s (p :: ps) s'

variable {s s' s'' : Stock} {ps ps' : List Promotion}

/-- A stock grows to itself without promotions. -/
theorem Grows.refl (s : Stock) : s.Grows [] s := .same (.refl s)

/-- A stock with the same entries grows by the same promotions. -/
theorem Grows.of_sameEntries (hsame : s.SameEntries s') (h : s'.Grows ps s'') :
    s.Grows ps s'' := by
  cases h with
  | same h => exact .same (hsame.trans h)
  | promote h hrest => exact .promote (hsame.trans h) hrest

/-- Growth goes on: the promotions of the second part follow those of the first. -/
theorem Grows.trans (h : s.Grows ps s') (h' : s'.Grows ps' s'') : s.Grows (ps ++ ps') s'' := by
  induction h with
  | same hsame => exact h'.of_sameEntries hsame
  | promote hsame _ ih => exact .promote hsame (ih h')

/-- What does not change the entries of the libraries is no growth. -/
theorem Grows.congr (h : s.Grows ps s') (hsame : s'.SameEntries s'') : s.Grows ps s'' := by
  have hall := h.trans (.same hsame)
  rwa [List.append_nil] at hall

/-- One promotion is growth by itself. -/
theorem Grows.promotion (p : Promotion) : p.before.Grows [p] p.after :=
  .promote (.refl _) (.refl _)

/-- Promotions keep every entry. -/
theorem Grows.within (h : s.Grows ps s') : s.Within s' := by
  induction h with
  | same hsame => exact hsame.within
  | @promote s s' p ps hsame _ ih => exact (hsame.within.trans p.within_after).trans ih

/-- Every entry that a promotion has found or added is there afterwards. -/
theorem Grows.after_within (h : s.Grows ps s') : ∀ p ∈ ps, p.after.Within s' := by
  induction h with
  | same _ => exact List.forall_mem_nil _
  | promote _ hrest ih => exact List.forall_mem_cons.2 ⟨hrest.within, ih⟩

/-- What stands in a library was there before, or a promotion has added it. -/
theorem Grows.origin (h : s.Grows ps s') {kind : LibraryKind} {path : String} {d : Definition}
    (hd : (s'.library kind).circuits[path]? = some d) :
    (s.library kind).circuits[path]? = some d ∨ ∃ p ∈ ps, p.kind = kind ∧ p.Adds path d := by
  induction h with
  | same hsame =>
    rw [(hsame kind).circuits] at hd
    exact .inl hd
  | @promote s s' p ps hsame _ ih =>
    rcases ih hd with hd | ⟨q, hq, hadds⟩
    · cases hbefore : (p.before.library kind).circuits[path]? with
      | some d₀ =>
        have hkept := (p.within_after kind).circuits path d₀ hbefore
        rw [hd] at hkept
        obtain rfl := Option.some.inj hkept
        rw [(hsame kind).circuits] at hbefore
        exact .inl hbefore
      | none =>
        by_cases hkind : kind = p.kind
        · subst hkind
          exact .inr ⟨p, List.mem_cons_self, rfl, hd, hbefore⟩
        · rw [Promotion.after, library_updateLibrary_of_ne hkind, hbefore] at hd
          exact absurd hd (by simp)
    · exact .inr ⟨q, List.mem_cons_of_mem p hq, hadds⟩

end Stock

/-! ## The journal of promotions -/

namespace Loading

/-- The promotion that ends the compilation of a library text. -/
def promotionOf (load : Loader) (kind : LibraryKind) (label text : String) (w : Workspace) :
    Promotion :=
  let read := (readerOf load kind label text w).settle.work
  ⟨kind, read.stock, extracted read.forest (namespaceOf label)⟩

/-- The promotions that are made while a library text is compiled. -/
def promotionsOfText (load : Loader) (journal : Journal Promotion) (kind : LibraryKind)
    (label text : String) (w : Workspace) : List Promotion :=
  Reader.notesOfText ⟨label, .library kind⟩ load journal (namespaceOf label) text
      { w with opened := [] } ++ [promotionOf load kind label text w]

/-- The promotions that are made when the library file at a path is compiled. -/
def promotionsOfFile (load : Loader) (journal : Journal Promotion) (disk : Disk)
    (kind : LibraryKind) (path : String) (w : Workspace) : List Promotion :=
  match disk.find? path with
  | none => []
  | some (canonical, object) =>
    if w.compiled.contains canonical then []
    else
      match Disk.textOf object with
      | .error _ => []
      | .ok text =>
        promotionsOfText load journal kind path text
          { w with compiled := w.compiled.insert canonical }

/-- The promotions that are made when a library is loaded by its name. -/
def promotionsOfNamed (load : Loader) (journal : Journal Promotion) (disk : Disk) :
    Journal Promotion := fun kind name w =>
  if isStandard name then []
  else
    match (w.settings.libraryCandidates name).find? disk.isFile with
    | none => []
    | some path => promotionsOfFile load journal disk kind path w

/-- The promotions made by the loader for libraries nested less deeply than the bound. -/
def promotions (disk : Disk) : Nat → Journal Promotion
  | 0 => fun _ _ _ => []
  | n + 1 => promotionsOfNamed (loader disk n) (promotions disk n) disk

end Loading

/-- The promotions made by the loader of a disk. -/
def Disk.promotions (disk : Disk) : Journal Promotion :=
  Loading.promotions disk (disk.objects.size + 1)

/-- The journal notes what the loader promotes. -/
def Loader.Promotes (load : Loader) (journal : Journal Promotion) : Prop :=
  ∀ kind name (w : Workspace), w.stock.Grows (journal kind name w) (load kind name w).1.stock

namespace Loading

variable {disk : Disk} {load : Loader} {journal : Journal Promotion}

/-- While a text is read, the libraries grow by what its lines load. -/
theorem grows_ofText (hpromotes : load.Promotes journal) (hload : load.Frames disk) (src : Source)
    (path text : String) (w : Workspace) :
    w.stock.Grows (Reader.notesOfText src load journal path text w)
      (Reader.ofText load src path text w).work.stock := by
  have hnoting : Reader.Noting src load journal fun notes r =>
      0 < r.work.opened.length ∧ w.stock.Grows notes r.work.stock :=
    Reader.noting_stock (P := fun notes s => w.stock.Grows notes s) hload.opened
      fun notes kind name v h => h.trans (hpromotes kind name v)
  exact (hnoting.ofText ⟨Nat.succ_pos _, .refl _⟩).2

/-- Changing a library of the workspace changes that of its stock. -/
theorem stock_updateLibrary (w : Workspace) (kind : LibraryKind) (f : Library → Library) :
    (w.updateLibrary kind f).stock = w.stock.updateLibrary kind f := by
  cases kind <;> rfl

/-- The libraries behind the compilation of a text are those behind its last promotion. -/
theorem stock_compileText (load : Loader) (kind : LibraryKind) (label text : String)
    (w : Workspace) :
    (compileText load kind label text w).1.stock = (promotionOf load kind label text w).after := by
  have hstock := congrArg (fun result => result.1.stock) (compileText_eq load kind label text w)
  dsimp only at hstock
  rw [hstock, stock_updateLibrary]
  unfold promotionOf
  generalize readerOf load kind label text w = r
  rfl

/-- A library text is promoted when what it loads has been promoted. -/
theorem grows_compileText (hpromotes : load.Promotes journal) (hload : load.Frames disk)
    (kind : LibraryKind) (label text : String) (w : Workspace) :
    w.stock.Grows (promotionsOfText load journal kind label text w)
      (compileText load kind label text w).1.stock := by
  have hread := grows_ofText hpromotes hload ⟨label, .library kind⟩ (namespaceOf label) text
    { w with opened := [] }
  have hsettled := Reader.stock_settle (readerOf load kind label text w)
  rw [stock_compileText]
  refine hread.trans ?_
  have hbefore : (promotionOf load kind label text w).before =
      (readerOf load kind label text w).work.stock := hsettled
  have hlast := Stock.Grows.promotion (promotionOf load kind label text w)
  rwa [hbefore] at hlast

/-- Recording a file changes no entry. -/
theorem sameEntries_noteFile (w : Workspace) (kind : LibraryKind) (file : String) :
    w.stock.SameEntries (w.updateLibrary kind (·.noteFile file)).stock := by
  intro other
  cases kind <;> cases other <;> exact ⟨_, rfl⟩

/-- Compiling a library file lets the stock grow by the promotions listed for the file. -/
theorem grows_compileFile (hpromotes : load.Promotes journal) (hload : load.Frames disk)
    (kind : LibraryKind) (path : String) (w : Workspace) :
    w.stock.Grows (promotionsOfFile load journal disk kind path w)
      (compileFile load disk kind path w).1.stock := by
  unfold promotionsOfFile compileFile
  cases disk.find? path with
  | none => exact .refl _
  | some found =>
    obtain ⟨canonical, object⟩ := found
    dsimp only
    by_cases hnew : w.compiled.contains canonical = true
    · rw [if_pos hnew, if_pos hnew]
      exact .refl _
    · rw [if_neg hnew, if_neg hnew]
      have hmarked : w.stock.SameEntries
          { w with compiled := w.compiled.insert canonical }.stock := by
        intro other
        cases other <;> exact .refl _
      cases Disk.textOf object with
      | error message => exact .same hmarked
      | ok text =>
        have hinner := grows_compileText hpromotes hload kind path text
          { w with compiled := w.compiled.insert canonical }
        exact (hinner.of_sameEntries hmarked).congr (sameEntries_noteFile _ kind canonical)

/-- The journal of a loader notes what the loader promotes. -/
theorem promotes_loader (disk : Disk) (n : Nat) : (loader disk n).Promotes (promotions disk n) := by
  induction n with
  | zero => exact fun _ _ w => .refl w.stock
  | succ n ih =>
    intro kind name w
    unfold loader compileNamed promotions promotionsOfNamed
    by_cases hstandard : isStandard name = true
    · rw [if_pos hstandard, if_pos hstandard]
      exact .refl _
    · rw [if_neg hstandard, if_neg hstandard]
      cases (w.settings.libraryCandidates name).find? disk.isFile with
      | none => exact .refl _
      | some path => exact grows_compileFile ih (frames_loader disk n) kind path w

end Loading

/-! ## What is promoted -/

/-- All definitions of the forest are unbound. -/
def Forest.Unbound (forest : Forest) : Prop :=
  ∀ (path : String) (d : Definition), forest[path]? = some d → d.Unbound

/-- The definitions of library texts, which are those with a colon in their paths, are unbound. -/
def Forest.TextsUnbound (forest : Forest) : Prop :=
  ∀ (path : String) (d : Definition), ':' ∈ path.toList → forest[path]? = some d → d.Unbound

/-- In a plain forest the texts under namespaces are unbound as well. -/
theorem Forest.Plain.textsUnbound {forest : Forest} (h : forest.Plain) : forest.TextsUnbound := by
  intro path d hcolon hd
  refine absurd hcolon (h path ?_)
  rw [Std.ExtTreeMap.mem_iff_isSome_getElem?, hd]
  rfl

/-- What is promoted for a library goes into that library, and is unbound until then. -/
def Journal.Fresh (journal : Journal Promotion) : Prop :=
  ∀ kind name (w : Workspace), w.forest.TextsUnbound →
    ∀ p ∈ journal kind name w, p.kind = kind ∧ p.defs.Unbound

namespace Reader

/-- Everything that is open is unbound, and so are the library texts that have been read. -/
structure AllUnbound (r : Reader) : Prop where
  nonempty : 0 < r.work.opened.length
  opened : ∀ d ∈ r.work.opened, d.Unbound
  forest : r.work.forest.TextsUnbound

variable {r : Reader}

/-- Definitions stay unbound under a change of the innermost one that keeps it so. -/
theorem AllUnbound.modifyCurrent (h : r.AllUnbound) {g : Definition → Definition}
    (hg : ∀ d, d.Unbound → (g d).Unbound) : (r.modifyCurrent g).AllUnbound where
  nonempty := by
    rw [length_opened_modifyCurrent]
    exact h.nonempty
  opened := by
    rw [modifyCurrent_eq]
    exact forall_mem_modifyHead h.opened hg
  forest := by
    rw [modifyCurrent_eq]
    exact h.forest

/-- A finding binds nothing. -/
theorem AllUnbound.report (h : r.AllUnbound) (f : Finding) : (r.report f).AllUnbound where
  nonempty := by
    rw [length_opened_report]
    exact h.nonempty
  opened := by
    rw [report_eq]
    dsimp only
    split
    · exact forall_mem_modifyHead h.opened fun _ hd => hd
    · exact h.opened
  forest := by
    rw [report_eq]
    exact h.forest

/-- Closing a definition moves it to the forest unbound as it is. -/
theorem AllUnbound.close (h : r.AllUnbound) (hdeep : 1 < r.work.opened.length) :
    r.close.AllUnbound := by
  cases hopened : r.work.opened with
  | nil =>
    rw [hopened] at hdeep
    exact absurd hdeep (Nat.not_lt_zero _)
  | cons d around =>
    have hall := h.opened
    rw [hopened] at hall hdeep
    obtain ⟨hd, haround⟩ := List.forall_mem_cons.1 hall
    have hnonempty : 0 < around.length := Nat.lt_of_succ_lt_succ hdeep
    cases hcontains : r.work.forest.contains d.path with
    | true =>
      have hdropped : AllUnbound { r with work := { r.work with opened := around } } :=
        ⟨hnonempty, haround, h.forest⟩
      rw [close_of_contains hopened hcontains]
      exact hdropped.report _
    | false =>
      have hadded : AllUnbound { r with work := { r.work with
          opened := around, forest := r.work.forest.insert d.path d } } := by
        refine ⟨hnonempty, haround, fun path e hcolon he => ?_⟩
        rcases NameMap.getElem?_of_insert he with ⟨-, rfl⟩ | hold
        · exact hd
        · exact h.forest path e hcolon hold
      rw [close_of_not_contains hopened hcontains]
      exact hadded.modifyCurrent fun _ hd => hd

/-- Loading a library leaves the definitions that are being read unbound. -/
theorem AllUnbound.loaded (h : r.AllUnbound) {disk : Disk} {load : Loader}
    (hload : load.Frames disk) (src : Source) (t : Token) :
    (r.loaded src load t).AllUnbound := by
  have hframe := hload.frame src.libraryKind t.text r.work
  have hopened := hload.opened src.libraryKind t.text r.work
  unfold Reader.loaded
  revert hframe hopened
  generalize load src.libraryKind t.text r.work = result
  obtain ⟨work, problem?⟩ := result
  intro hframe hopened
  have hwork : AllUnbound { r with work := work } := by
    change work.opened = r.work.opened at hopened
    refine ⟨?_, ?_, fun path d hcolon hd => ?_⟩
    · rw [hopened]
      exact h.nonempty
    · rw [hopened]
      exact h.opened
    · exact h.forest path d hcolon (hframe.forest path d (fun hfalse => hfalse) hd)
  cases problem? with
  | none => exact hwork
  | some problem => exact hwork.report _

/-- What is taken out of the forest for a library text is unbound. -/
theorem AllUnbound.extracted (h : r.AllUnbound) (label : String) :
    (Loading.extracted r.settle.work.forest (Loading.namespaceOf label)).Unbound := by
  intro path d hd
  obtain ⟨outside, d₀, ⟨hbelongs, hd₀⟩, -, rfl⟩ := Loading.exists_of_extracted hd
  have hcolon := Loading.colon_mem_of_belongsTo hbelongs
  unfold settle at hd₀
  split at hd₀
  · exact h.forest outside d₀ hcolon hd₀
  · -- the text's own definition has been added last
    rename_i root around hopened
    rcases NameMap.getElem?_of_insert hd₀ with ⟨-, rfl⟩ | hold
    · exact h.opened d₀ (by rw [hopened]; exact List.mem_cons_self)
    · exact h.forest outside d₀ hcolon hold

/-- Nothing is bound while a text is read. -/
theorem noting_unbound {disk : Disk} {load : Loader} {journal : Journal Promotion}
    (hfresh : journal.Fresh) (hload : load.Frames disk) (src : Source) :
    Noting src load journal fun notes r =>
      r.AllUnbound ∧ ∀ p ∈ notes, p.kind = src.libraryKind ∧ p.defs.Unbound where
  opened := fun h => h.1.nonempty
  report := fun f h _ => ⟨h.1.report f, h.2⟩
  change := fun h _ hg => ⟨h.1.modifyCurrent fun _ hd => unbound_of_mild hg hd, h.2⟩
  opens := fun _ _ _ h _ _ =>
    ⟨⟨Nat.succ_pos _, List.forall_mem_cons.2 ⟨unbound_of_elements_eq_empty rfl, h.1.opened⟩,
      h.1.forest⟩, h.2⟩
  closes := fun h hdeep => ⟨h.1.close hdeep, h.2⟩
  load := by
    intro notes r t h _
    refine ⟨h.1.loaded hload src t, fun p hp => ?_⟩
    rcases List.mem_append.1 hp with hp | hp
    · exact h.2 p hp
    · exact hfresh _ _ r.work h.1.forest p hp
  skipTo := fun _ h => ⟨⟨h.1.nonempty, h.1.opened, h.1.forest⟩, h.2⟩
  stop := fun h => ⟨⟨h.1.nonempty, h.1.opened, h.1.forest⟩, h.2⟩

end Reader

namespace Loading

variable {disk : Disk} {load : Loader} {journal : Journal Promotion}

/-- What a text loads goes into the library of the text, and is unbound until then. -/
theorem fresh_ofText (hfresh : journal.Fresh) (hload : load.Frames disk) (src : Source)
    (path text : String) {w : Workspace} (hopened : w.opened = [])
    (hforest : w.forest.TextsUnbound) :
    (Reader.ofText load src path text w).AllUnbound ∧
      ∀ p ∈ Reader.notesOfText src load journal path text w,
        p.kind = src.libraryKind ∧ p.defs.Unbound := by
  refine (Reader.noting_unbound hfresh hload src).ofText
    ⟨⟨Nat.succ_pos _, ?_, hforest⟩, List.forall_mem_nil _⟩
  show ∀ d ∈ _ :: w.opened, d.Unbound
  rw [hopened]
  exact List.forall_mem_singleton.2 (Reader.unbound_of_elements_eq_empty rfl)

/-- The promotions of a library text are of its kind, and their definitions are as they were
read. -/
theorem fresh_text (hfresh : journal.Fresh) (hload : load.Frames disk) (kind : LibraryKind)
    (label text : String) {w : Workspace} (hforest : w.forest.TextsUnbound) :
    ∀ p ∈ promotionsOfText load journal kind label text w, p.kind = kind ∧ p.defs.Unbound := by
  have hall := fresh_ofText hfresh hload ⟨label, .library kind⟩ (namespaceOf label) text
    (w := { w with opened := [] }) rfl hforest
  have hread : (readerOf load kind label text w).AllUnbound := hall.1
  intro p hp
  rcases List.mem_append.1 hp with hp | hp
  · exact hall.2 p hp
  · obtain rfl := List.mem_singleton.1 hp
    unfold promotionOf
    generalize readerOf load kind label text w = r at hread
    exact ⟨rfl, hread.extracted label⟩

/-- The promotions of a library file are of its kind, and their definitions are as they were
read. -/
theorem fresh_file (hfresh : journal.Fresh) (hload : load.Frames disk) (kind : LibraryKind)
    (path : String) {w : Workspace} (hforest : w.forest.TextsUnbound) :
    ∀ p ∈ promotionsOfFile load journal disk kind path w, p.kind = kind ∧ p.defs.Unbound := by
  unfold promotionsOfFile
  cases disk.find? path with
  | none => exact List.forall_mem_nil _
  | some found =>
    obtain ⟨canonical, object⟩ := found
    dsimp only
    split
    · exact List.forall_mem_nil _
    · cases Disk.textOf object with
      | error message => exact List.forall_mem_nil _
      | ok text => exact fresh_text hfresh hload kind path text hforest

/-- Whatever a loader promotes goes into the library that is loaded, and is unbound until then. -/
theorem fresh_promotions (disk : Disk) (n : Nat) : (promotions disk n).Fresh := by
  induction n with
  | zero => exact fun _ _ _ _ => List.forall_mem_nil _
  | succ n ih =>
    intro kind name w hforest
    unfold promotions promotionsOfNamed
    split
    · exact List.forall_mem_nil _
    · cases (w.settings.libraryCandidates name).find? disk.isFile with
      | none => exact List.forall_mem_nil _
      | some path => exact fresh_file ih (frames_loader disk n) kind path hforest

end Loading

end FlatNet
