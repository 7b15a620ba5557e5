import FlatNet.Proofs.Library.Promotions

/-!
# Histories of libraries

Netlists and libraries are compiled one after the other, and the libraries grow by promotions on the
way.  `Workspace.stages` lists the stock at all times of a row of operations: between them, and
before and after every promotion, however deeply the library that makes it is nested.  An entry that
is there once is there at all later times, unless all libraries are forgotten.

A `History` also goes through the operations that forget libraries; it keeps the promotions that
have made the libraries at hand.
-/

set_option autoImplicit false

namespace FlatNet

/-! ## Operations -/

/-- What is done with a workspace without forgetting its libraries. -/
inductive Operation where
  | compile (disk : Disk) (label text : String)
  | compileLibraryText (disk : Disk) (kind : LibraryKind) (label text : String)
  | compileLibrary (disk : Disk) (kind : LibraryKind) (path : String)
  | includeLibrary (disk : Disk) (kind : LibraryKind) (name : String)
  | reset
  | configure (settings : Settings)

namespace Workspace

variable (w : Workspace) (disk : Disk)

/-- The promotions that are made while a netlist is compiled. -/
def promotionsOfCompile (label text : String) : List Promotion :=
  Reader.notesOfText ⟨label, .netlist⟩ disk.loader disk.promotions "" text w.reset

/-- The promotions that are made while a library text is compiled. -/
def promotionsOfLibraryText (kind : LibraryKind) (label text : String) : List Promotion :=
  Loading.promotionsOfText disk.loader disk.promotions kind label text w

/-- The promotions that are made when the library file at a path is compiled. -/
def promotionsOfLibrary (kind : LibraryKind) (path : String) : List Promotion :=
  Loading.promotionsOfFile disk.loader disk.promotions disk kind path w

/-- The promotions that are made while configured libraries are compiled. -/
def promotionsOfConfigured : Workspace → List String → List Promotion
  | _, [] => []
  | w, path :: rest =>
    w.promotionsOfLibrary disk .builtin path ++
      promotionsOfConfigured (compileConfigured disk w path) rest

/-- The promotions that are made while the built-in libraries are compiled anew. -/
def promotionsOfRebuild : List Promotion :=
  w.cleared.promotionsOfLibraryText disk .builtin StandardLibrary.fileName StandardLibrary.text ++
    promotionsOfConfigured disk
      (w.cleared.compileLibraryText disk .builtin StandardLibrary.fileName
        StandardLibrary.text).1 w.settings.builtinLibraries

end Workspace

namespace Operation

/-- The workspace after an operation. -/
def run (w : Workspace) : Operation → Workspace
  | compile disk label text => (w.compile disk label text).1
  | compileLibraryText disk kind label text => (w.compileLibraryText disk kind label text).1
  | compileLibrary disk kind path => (w.compileLibrary disk kind path).1
  | includeLibrary disk kind name => (w.includeLibrary disk kind name).1
  | reset => w.reset
  | configure settings => { w with settings }

/-- The promotions that are made during an operation, at any nesting of libraries. -/
def promotions (w : Workspace) : Operation → List Promotion
  | compile disk label text => w.promotionsOfCompile disk label text
  | compileLibraryText disk kind label text => w.promotionsOfLibraryText disk kind label text
  | compileLibrary disk kind path => w.promotionsOfLibrary disk kind path
  | includeLibrary disk kind name => disk.promotions kind name w
  | reset => []
  | configure _ => []

/-- The operation that compiles a library text does so. -/
theorem run_compileLibraryText (w : Workspace) (disk : Disk) (kind : LibraryKind)
    (label text : String) :
    (compileLibraryText disk kind label text).run w =
      (w.compileLibraryText disk kind label text).1 := rfl

/-- The operation that forgets the last compilation does so. -/
theorem run_reset (w : Workspace) : reset.run w = w.reset := rfl

end Operation

namespace Workspace

variable (w : Workspace) (disk : Disk)

/-! ## Growth -/

/-- The loader of a disk makes the promotions that are listed for it. -/
theorem promotes_loader : disk.loader.Promotes disk.promotions := Loading.promotes_loader disk _

/-- The promotions of a disk are made of definitions as they were read. -/
theorem fresh_promotions : disk.promotions.Fresh := Loading.fresh_promotions disk _

/-- While a netlist is read, the libraries grow by what it loads. -/
theorem grows_readNetlist (label text : String) :
    w.stock.Grows (w.promotionsOfCompile disk label text)
      (w.readNetlist disk label text).stock := by
  have hread := Loading.grows_ofText (promotes_loader disk) (frames_loader disk)
    ⟨label, .netlist⟩ "" text w.reset
  unfold readNetlist Workspace.readSource
  rw [Reader.readSource_eq, Reader.stock_settle]
  exact hread

/-- A library text that is compiled at the outside lets the stock grow by its promotions. -/
theorem grows_compileLibraryText (kind : LibraryKind) (label text : String) :
    w.stock.Grows (w.promotionsOfLibraryText disk kind label text)
      (w.compileLibraryText disk kind label text).1.stock :=
  Loading.grows_compileText (promotes_loader disk) (frames_loader disk) kind label text w

/-- A library file that is compiled at the outside lets the stock grow by its promotions. -/
theorem grows_compileLibrary (kind : LibraryKind) (path : String) :
    w.stock.Grows (w.promotionsOfLibrary disk kind path)
      (w.compileLibrary disk kind path).1.stock :=
  Loading.grows_compileFile (promotes_loader disk) (frames_loader disk) kind path w

/-- During an operation the libraries grow by its promotions. -/
theorem grows_run (op : Operation) : w.stock.Grows (op.promotions w) (op.run w).stock := by
  cases op with
  | compile disk label text =>
    show w.stock.Grows _ (w.compile disk label text).1.stock
    rw [compile_eq, stock_finishNetlist]
    exact grows_readNetlist w disk label text
  | compileLibraryText disk kind label text => exact grows_compileLibraryText w disk kind label text
  | compileLibrary disk kind path => exact grows_compileLibrary w disk kind path
  | includeLibrary disk kind name => exact promotes_loader disk kind name w
  | reset => exact .refl _
  | configure settings =>
    refine .same fun kind => ?_
    cases kind <;> exact .refl _

/-! ## Stages -/

/-- The stock at all times of a row of operations: before them, after each of them, and before and
after each promotion in between. -/
def stages : Workspace → List Operation → List Stock
  | w, [] => [w.stock]
  | w, op :: rest =>
    w.stock :: (op.promotions w).flatMap (fun p => [p.before, p.after]) ++ stages (op.run w) rest

end Workspace

namespace Stock

/-- From one time to the next one no entry of a library changes, or a promotion is made. -/
def Next (s s' : Stock) : Prop :=
  s.SameEntries s' ∨ ∃ p : Promotion, s = p.before ∧ s' = p.after

variable {s s' : Stock} {ps : List Promotion}

/-- From one time to the next one every entry stays. -/
theorem Next.within (h : s.Next s') : s.Within s' := by
  rcases h with hsame | ⟨p, rfl, rfl⟩
  · exact hsame.within
  · exact p.within_after

/-- Where a stock has grown by promotions, they follow each other. -/
theorem Grows.isChain (h : s.Grows ps s') {rest : List Stock}
    (hrest : (s' :: rest).IsChain Next) :
    (s :: (ps.flatMap fun p => [p.before, p.after]) ++ s' :: rest).IsChain Next := by
  induction h with
  | same hsame => exact List.isChain_cons_cons.2 ⟨.inl hsame, hrest⟩
  | @promote s s' p ps hsame _ ih =>
    have hlast := ih hrest
    rw [List.flatMap_cons]
    exact List.isChain_cons_cons.2 ⟨.inl hsame,
      List.isChain_cons_cons.2 ⟨.inr ⟨p, rfl, rfl⟩, hlast⟩⟩

end Stock

namespace Workspace

/-- The first stage is the stock before the operations. -/
theorem exists_stages_eq_cons (w : Workspace) (ops : List Operation) :
    ∃ rest, w.stages ops = w.stock :: rest := by
  cases ops with
  | nil => exact ⟨[], rfl⟩
  | cons op rest => exact ⟨_, rfl⟩

/-- From each stage to the next one a promotion is made or no entry changes. -/
theorem isChain_stages (w : Workspace) (ops : List Operation) :
    (w.stages ops).IsChain Stock.Next := by
  induction ops generalizing w with
  | nil => exact .singleton _
  | cons op rest ih =>
    obtain ⟨behind, hbehind⟩ := exists_stages_eq_cons (op.run w) rest
    have hrest := ih (op.run w)
    rw [stages, hbehind]
    rw [hbehind] at hrest
    exact (w.grows_run op).isChain hrest

/-- The last stage is the stock behind the operations. -/
theorem getLast?_stages (w : Workspace) (ops : List Operation) :
    (w.stages ops).getLast? = some (ops.foldl Operation.run w).stock := by
  induction ops generalizing w with
  | nil => rfl
  | cons op rest ih =>
    rw [stages, List.getLast?_append, ih (op.run w)]
    rfl

/-- Cached definitions never change their meaning.  In any row of compilations of netlists and
libraries, however the libraries are nested and whatever is wrong with them, an entry of a library
changes from one time to the next one only by a promotion, and every sub-circuit, model and global
parameter that is in a library at one time is there at every later time with the same content. -/
theorem stages_within (w : Workspace) (ops : List Operation) :
    (w.stages ops).head? = some w.stock ∧
      (w.stages ops).getLast? = some (ops.foldl Operation.run w).stock ∧
      (w.stages ops).IsChain Stock.Next ∧ (w.stages ops).Pairwise Stock.Within := by
  have hchain := isChain_stages w ops
  have : Trans Stock.Within Stock.Within Stock.Within := ⟨Stock.Within.trans⟩
  refine ⟨?_, getLast?_stages w ops, hchain, ?_⟩
  · obtain ⟨rest, hrest⟩ := exists_stages_eq_cons w ops
    rw [hrest]
    rfl
  · exact List.isChain_iff_pairwise.1 (hchain.imp fun _ _ h => h.within)

/-! ## Histories -/

/-- A workspace that has come about by the public operations, with the promotions that have made its
libraries.  Nothing is left of them when all libraries are forgotten; whoever takes over a built-in
library takes over the promotions into it. -/
inductive History : Workspace → List Promotion → Prop
  | new (settings : Settings) (disk : Disk) :
      History (Workspace.new settings disk)
        ((Workspace.withBuiltin settings Library.empty).promotionsOfRebuild disk)
  | withBuiltin (settings : Settings) {w : Workspace} {ps : List Promotion} (h : History w ps) :
      History (Workspace.withBuiltin settings w.builtin) (ps.filter fun p => p.kind = .builtin)
  | operate {w : Workspace} {ps : List Promotion} (h : History w ps) (op : Operation) :
      History (op.run w) (ps ++ op.promotions w)
  | rebuild {w : Workspace} {ps : List Promotion} (h : History w ps) (disk : Disk) :
      History (w.rebuild disk) (w.promotionsOfRebuild disk)

variable {w : Workspace} {ps : List Promotion}

/-- Operations lead from workspaces that come about to others. -/
theorem Reachable.run (h : w.Reachable) (op : Operation) : (op.run w).Reachable := by
  cases op with
  | compile disk label text => exact h.compile disk label text
  | compileLibraryText disk kind label text => exact h.compileLibraryText disk kind label text
  | compileLibrary disk kind path => exact h.compileLibrary disk kind path
  | includeLibrary disk kind name => exact h.includeLibrary disk kind name
  | reset => exact h.reset
  | configure settings => exact h.configure settings

/-- A workspace with a history comes about by the public operations. -/
theorem History.reachable (h : w.History ps) : w.Reachable := by
  induction h with
  | new settings disk => exact .new settings disk
  | withBuiltin settings _ ih => exact .withBuiltin settings ih
  | operate _ op ih => exact ih.run op
  | rebuild _ disk ih => exact .rebuild ih disk

/-- Every workspace that comes about by the public operations has a history. -/
theorem Reachable.exists_history (h : w.Reachable) : ∃ ps, w.History ps := by
  induction h with
  | new settings disk => exact ⟨_, .new settings disk⟩
  | withBuiltin settings _ ih =>
    obtain ⟨ps, hps⟩ := ih
    exact ⟨_, .withBuiltin settings hps⟩
  | compileLibraryText _ disk kind label text ih =>
    obtain ⟨ps, hps⟩ := ih
    exact ⟨_, .operate hps (.compileLibraryText disk kind label text)⟩
  | compileLibrary _ disk kind path ih =>
    obtain ⟨ps, hps⟩ := ih
    exact ⟨_, .operate hps (.compileLibrary disk kind path)⟩
  | includeLibrary _ disk kind name ih =>
    obtain ⟨ps, hps⟩ := ih
    exact ⟨_, .operate hps (.includeLibrary disk kind name)⟩
  | compile _ disk label text ih =>
    obtain ⟨ps, hps⟩ := ih
    exact ⟨_, .operate hps (.compile disk label text)⟩
  | reset _ ih =>
    obtain ⟨ps, hps⟩ := ih
    exact ⟨_, .operate hps .reset⟩
  | rebuild _ disk ih =>
    obtain ⟨ps, hps⟩ := ih
    exact ⟨_, .rebuild hps disk⟩
  | configure _ settings ih =>
    obtain ⟨ps, hps⟩ := ih
    exact ⟨_, .operate hps (.configure settings)⟩

/-! ## What a history tells -/

/-- While a plain forest is at hand, whatever an operation promotes is unbound until then. -/
theorem unbound_promotions (hplain : w.forest.Plain) (op : Operation) :
    ∀ p ∈ op.promotions w, p.defs.Unbound := by
  intro p hp
  cases op with
  | compile disk label text =>
    exact ((Loading.fresh_ofText (fresh_promotions disk) (frames_loader disk) ⟨label, .netlist⟩ ""
      text (w := w.reset) rfl Forest.plain_empty.textsUnbound).2 p hp).2
  | compileLibraryText disk kind label text =>
    exact (Loading.fresh_text (fresh_promotions disk) (frames_loader disk) kind label text
      hplain.textsUnbound p hp).2
  | compileLibrary disk kind path =>
    exact (Loading.fresh_file (fresh_promotions disk) (frames_loader disk) kind path
      hplain.textsUnbound p hp).2
  | includeLibrary disk kind name =>
    exact (fresh_promotions disk kind name w hplain.textsUnbound p hp).2
  | reset => exact absurd hp List.not_mem_nil
  | configure settings => exact absurd hp List.not_mem_nil

end Workspace

/-- The libraries of a stock have been made by the promotions: each sub-circuit has been added by
one of them, and what they have left in the libraries is still there. -/
structure Stock.MadeBy (s : Stock) (ps : List Promotion) : Prop where
  origin : ∀ (kind : LibraryKind) (path : String) (d : Definition),
    (s.library kind).circuits[path]? = some d → ∃ p ∈ ps, p.kind = kind ∧ p.Adds path d
  kept : ∀ p ∈ ps, (p.after.library p.kind).Within (s.library p.kind)
  builtin : ∀ p ∈ ps, p.after.builtin.Within s.builtin
  unbound : ∀ p ∈ ps, p.defs.Unbound

namespace Stock

variable {s s' : Stock} {ps ps' : List Promotion}

/-- A stock that has been made by promotions has, when it grows, been made by the new ones as
well. -/
theorem MadeBy.grows (h : s.MadeBy ps) (hgrows : s.Grows ps' s')
    (hunbound : ∀ p ∈ ps', p.defs.Unbound) : s'.MadeBy (ps ++ ps') where
  origin := by
    intro kind path d hd
    rcases hgrows.origin hd with hold | ⟨p, hp, hadds⟩
    · obtain ⟨p, hp, hadds⟩ := h.origin kind path d hold
      exact ⟨p, List.mem_append_left _ hp, hadds⟩
    · exact ⟨p, List.mem_append_right _ hp, hadds⟩
  kept := by
    intro p hp
    rcases List.mem_append.1 hp with hp | hp
    · exact (h.kept p hp).trans (hgrows.within p.kind)
    · exact hgrows.after_within p hp p.kind
  builtin := by
    intro p hp
    rcases List.mem_append.1 hp with hp | hp
    · exact (h.builtin p hp).trans (hgrows.within .builtin)
    · exact hgrows.after_within p hp .builtin
  unbound := by
    intro p hp
    rcases List.mem_append.1 hp with hp | hp
    · exact h.unbound p hp
    · exact hunbound p hp

/-- Empty libraries have been made by nothing. -/
theorem madeBy_nil (h : ∀ kind, s.library kind = Library.empty) : s.MadeBy [] where
  origin := by
    intro kind path d hd
    rw [h kind] at hd
    exact absurd hd (by simp [Library.empty])
  kept := List.forall_mem_nil _
  builtin := List.forall_mem_nil _
  unbound := List.forall_mem_nil _

end Stock

namespace Workspace

variable {w : Workspace} {ps : List Promotion} {disk : Disk}

/-- Problems with a configured library change neither libraries nor definitions. -/
theorem compileConfigured_kept (w : Workspace) (disk : Disk) (path : String) :
    (compileConfigured disk w path).stock = (w.compileLibrary disk .builtin path).1.stock ∧
      (compileConfigured disk w path).forest = (w.compileLibrary disk .builtin path).1.forest := by
  unfold compileConfigured
  generalize w.compileLibrary disk .builtin path = result
  obtain ⟨v, problem?⟩ := result
  cases problem? <;> exact ⟨rfl, rfl⟩

/-- Configured libraries let the stock grow by their promotions, one after another. -/
theorem grows_configured (w : Workspace) (disk : Disk) (paths : List String) :
    w.stock.Grows (promotionsOfConfigured disk w paths)
      (paths.foldl (compileConfigured disk) w).stock := by
  induction paths generalizing w with
  | nil => exact .refl _
  | cons path rest ih =>
    have hgrows := grows_compileLibrary w disk .builtin path
    rw [← (compileConfigured_kept w disk path).1] at hgrows
    exact hgrows.trans (ih _)

/-- The promotions of configured libraries are into the built-in one, and their definitions are as
they were read. -/
theorem fresh_configured (hplain : w.forest.Plain) (paths : List String) :
    ∀ p ∈ promotionsOfConfigured disk w paths, p.kind = .builtin ∧ p.defs.Unbound := by
  induction paths generalizing w with
  | nil => exact List.forall_mem_nil _
  | cons path rest ih =>
    have hafter := plain_compileLibrary disk hplain .builtin path
    rw [← (compileConfigured_kept w disk path).2] at hafter
    intro p hp
    rcases List.mem_append.1 hp with hp | hp
    · exact Loading.fresh_file (fresh_promotions disk) (frames_loader disk) .builtin path
        hplain.textsUnbound p hp
    · exact ih hafter p hp

/-- A library text is compiled into a workspace, and then configured libraries are. -/
theorem grows_afresh (hplain : w.forest.Plain) (label text : String) (paths : List String) :
    w.stock.Grows
        (w.promotionsOfLibraryText disk .builtin label text ++
          promotionsOfConfigured disk (w.compileLibraryText disk .builtin label text).1 paths)
        (paths.foldl (compileConfigured disk)
          (w.compileLibraryText disk .builtin label text).1).stock ∧
      ∀ p ∈ w.promotionsOfLibraryText disk .builtin label text ++
          promotionsOfConfigured disk (w.compileLibraryText disk .builtin label text).1 paths,
        p.kind = .builtin ∧ p.defs.Unbound := by
  have hafter := plain_compileLibraryText disk hplain .builtin label text
  refine ⟨(grows_compileLibraryText w disk .builtin label text).trans (grows_configured _ _ _),
    fun p hp => ?_⟩
  rcases List.mem_append.1 hp with hp | hp
  · exact Loading.fresh_text (fresh_promotions disk) (frames_loader disk) .builtin label text
      hplain.textsUnbound p hp
  · exact fresh_configured hafter paths p hp

/-- Compiling the built-in libraries anew begins with a cleared workspace. -/
theorem rebuild_eq (w : Workspace) (disk : Disk) :
    w.rebuild disk =
      w.settings.builtinLibraries.foldl (compileConfigured disk)
        (w.cleared.compileLibraryText disk .builtin StandardLibrary.fileName
          StandardLibrary.text).1 := by
  have hbare : { w.reset with
      user := Library.empty, builtin := Library.empty, compiled := ∅ } = w.cleared := rfl
  unfold rebuild
  dsimp only
  rw [hbare]

/-- When the built-in libraries are compiled anew, all promotions are into the built-in library. -/
theorem grows_rebuild (w : Workspace) (disk : Disk) :
    w.cleared.stock.Grows (w.promotionsOfRebuild disk) (w.rebuild disk).stock ∧
      ∀ p ∈ w.promotionsOfRebuild disk, p.kind = .builtin ∧ p.defs.Unbound := by
  have hcleared : w.cleared.forest.Plain := Forest.plain_empty
  rw [rebuild_eq]
  unfold promotionsOfRebuild
  exact grows_afresh hcleared _ _ _

/-- Where all libraries have been forgotten both are empty. -/
theorem library_cleared (w : Workspace) (kind : LibraryKind) :
    w.cleared.stock.library kind = Library.empty := by
  cases kind <;> rfl

/-- Compiling the built-in libraries anew makes them by its own promotions. -/
theorem madeBy_rebuild (w : Workspace) (disk : Disk) :
    (w.rebuild disk).stock.MadeBy (w.promotionsOfRebuild disk) := by
  obtain ⟨hgrows, hfresh⟩ := w.grows_rebuild disk
  have hmade := (Stock.madeBy_nil w.library_cleared).grows hgrows fun p hp => (hfresh p hp).2
  rwa [List.nil_append] at hmade

/-- The libraries of a workspace have been made by the promotions of its history. -/
theorem History.madeBy (h : w.History ps) : w.stock.MadeBy ps := by
  induction h with
  | new settings disk => exact madeBy_rebuild _ disk
  | @withBuiltin settings w ps _ ih =>
    have hbuiltin : ∀ p ∈ ps.filter fun p => p.kind = .builtin, p ∈ ps ∧ p.kind = .builtin := by
      intro p hp
      obtain ⟨hmem, hkind⟩ := List.mem_filter.1 hp
      exact ⟨hmem, of_decide_eq_true hkind⟩
    refine ⟨?_, ?_, fun p hp => ih.builtin p (hbuiltin p hp).1,
      fun p hp => ih.unbound p (hbuiltin p hp).1⟩
    · intro kind path d hd
      cases kind with
      | user =>
        change Library.empty.circuits[path]? = some d at hd
        exact absurd hd (by simp [Library.empty])
      | builtin =>
        obtain ⟨p, hp, hkind, hadds⟩ := ih.origin .builtin path d hd
        exact ⟨p, List.mem_filter.2 ⟨hp, decide_eq_true hkind⟩, hkind, hadds⟩
    · intro p hp
      obtain ⟨hmem, hkind⟩ := hbuiltin p hp
      have hkept := ih.kept p hmem
      rw [hkind] at hkept ⊢
      exact hkept
  | @operate w ps hhistory op ih =>
    exact ih.grows (w.grows_run op) (unbound_promotions hhistory.reachable.plain op)
  | @rebuild w _ _ disk _ => exact madeBy_rebuild w disk

end Workspace

end FlatNet
