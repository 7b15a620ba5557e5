import FlatNet.Proofs.Bindings
import FlatNet.Proofs.Library.History

/-!
# Sharing the built-in library

A workspace can take over the built-in library of another one, and then has a user library of its
own.  So it matters whether the definitions of the built-in library are linked to each other only.
A name in a library text is looked up in the text itself, in the user library and in the built-in
one, in this order: a text that is compiled into the built-in library while the user library has a
sub-circuit of the name borrows that sub-circuit.  `selfContained_builtin_iff` says that nothing
else leads out of the built-in library.
-/

set_option autoImplicit false

namespace FlatNet

/-! ## Links -/

namespace Element

variable {e : Element} {s : Surroundings} {defs : Forest} {owner : Definition} {key : PrototypeKey}

/-- An element that is bound by way of a primitive model is linked to the built-in library only. -/
theorem store_of_bindModel {p : Primitive} {card : Option ModelCard}
    (hunbound : e.prototype? = none)
    (h : (e.bindModel s defs p card).element.prototype? = some key) : key.store = .builtin := by
  unfold bindModel at h
  split at h
  · have hfilled : ((card.map fun c => e.withCard c p).getD e).prototype? = none := by
      cases card <;> exact hunbound
    generalize (card.map fun c => e.withCard c p).getD e = filled at h hfilled
    dsimp only at h
    unfold bindPrimitive at h
    split at h
    · exact absurd h (by simp [prototype?])
    · split at h
      · rw [hfilled] at h
        exact absurd h (by simp)
      · obtain rfl := Option.some.inj h
        rfl
  · rw [hunbound] at h
    exact absurd h (by simp)

/-- An element that is linked to a sub-circuit outside the built-in library has been looked up among
sub-circuits. -/
theorem findSubcircuit?_of_prototype?_bind (hunbound : e.isUnresolved = true)
    (h : (e.bind s defs owner).element.prototype? = some key) (hstore : key.store ≠ .builtin) :
    e.NamesCircuit s defs owner ∧
      ∃ proto, s.findSubcircuit? defs owner.path e.modelName = some (key, proto) := by
  have hnone : e.prototype? = none := by
    unfold isUnresolved at hunbound
    unfold prototype?
    split at hunbound
    · rename_i hbinding
      rw [hbinding]
    · exact absurd hunbound (by simp)
  have hbound := e.boundBy_bind s defs owner
  generalize e.bind s defs owner = b at hbound h
  cases hbound with
  | circuit hnames hfound =>
    obtain rfl := Option.some.inj h
    exact ⟨hnames, _, hfound⟩
  | primitive _ _ | card _ _ _ _ => exact absurd (store_of_bindModel hnone h) hstore
  | unknownCircuit _ _ | unknownModel _ _ _ | unknownBase _ _ =>
    exact absurd (hnone.symm.trans h) (by simp)

/-- An element that is looked up among sub-circuits is linked to what is found. -/
theorem prototype?_bind_of_findSubcircuit? {proto : Definition}
    (hnames : e.NamesCircuit s defs owner)
    (hfound : s.findSubcircuit? defs owner.path e.modelName = some (key, proto)) :
    (e.bind s defs owner).element.prototype? = some key := by
  unfold bind
  by_cases hdevice : e.device = .subcircuit
  · rw [if_pos hdevice]
    unfold bindInstance
    rw [hfound]
    rfl
  · obtain ⟨hprimitive, hmodel⟩ := hnames.resolve_left hdevice
    rw [if_neg hdevice, hprimitive]
    dsimp only
    rw [hmodel]
    dsimp only
    rw [hfound]
    rfl

end Element

/-- Around the path, or at it, a sub-circuit of the name is defined. -/
def Forest.HasAround (defs : Forest) (owner name : String) : Prop :=
  ∃ scope ∈ Scope.outward owner, Scope.child scope name ∈ defs

namespace Surroundings

variable {s : Surroundings} {defs defs' : Forest} {owner name : String} {key : PrototypeKey}

/-- The user library is searched for a name that is not defined around. -/
theorem findSubcircuit?_of_not_hasAround {proto : Definition} (haround : ¬defs.HasAround owner name)
    (huser : s.user.circuits[name]? = some proto) :
    s.findSubcircuit? defs owner name = some (⟨.user, name⟩, proto) := by
  have hlocal : ((Scope.outward owner).findSome? fun scope =>
      (defs[Scope.child scope name]?).map fun d =>
        ((⟨s.store, Scope.child scope name⟩ : PrototypeKey), d)) = none := by
    refine List.findSome?_eq_none_iff.2 fun scope hscope => ?_
    rw [Option.map_eq_none_iff]
    exact Std.ExtTreeMap.getElem?_eq_none fun hmem => haround ⟨scope, hscope, hmem⟩
  unfold findSubcircuit?
  dsimp only
  rw [hlocal, huser]
  rfl

/-- Only the user library gives an address in it, unless its own text is being compiled. -/
theorem of_findSubcircuit?_user {proto : Definition} (hstore : s.store ≠ .user)
    (h : s.findSubcircuit? defs owner name = some (key, proto)) (hkey : key.store = .user) :
    key = ⟨.user, name⟩ ∧ ¬defs.HasAround owner name ∧ s.user.circuits[name]? = some proto := by
  unfold findSubcircuit? at h
  dsimp only at h
  rcases Option.or_eq_some_iff.1 h with hlocal | ⟨hlocal, h⟩
  · obtain ⟨scope, -, hscope⟩ := List.exists_of_findSome?_eq_some hlocal
    obtain ⟨d, -, heq⟩ := Option.map_eq_some_iff.1 hscope
    obtain ⟨rfl, rfl⟩ := Prod.mk.inj heq
    exact absurd hkey hstore
  · have haround : ¬defs.HasAround owner name := by
      rintro ⟨scope, hscope, hmem⟩
      have hnone := List.findSome?_eq_none_iff.1 hlocal scope hscope
      rw [Option.map_eq_none_iff] at hnone
      rw [Std.ExtTreeMap.mem_iff_isSome_getElem?, hnone] at hmem
      exact absurd hmem (by simp)
    rcases Option.or_eq_some_iff.1 h with huser | ⟨-, hbuiltin⟩
    · obtain ⟨d, hd, heq⟩ := Option.map_eq_some_iff.1 huser
      obtain ⟨rfl, rfl⟩ := Prod.mk.inj heq
      exact ⟨rfl, haround, hd⟩
    · obtain ⟨d, -, heq⟩ := Option.map_eq_some_iff.1 hbuiltin
      obtain ⟨rfl, rfl⟩ := Prod.mk.inj heq
      exact absurd hkey (by simp)

/-- Which named model a name means is a matter of the models in the definitions. -/
theorem findModel?_congr (h : ∀ path : String,
      (defs[path]?).map Definition.models = (defs'[path]?).map Definition.models)
    (d : Definition) (name : String) : s.findModel? defs d name = s.findModel? defs' d name := by
  have hbind : ∀ path : String, ((defs[path]?).bind fun d => d.models[name]?) =
      (defs'[path]?).bind fun d => d.models[name]? := by
    intro path
    have hmap := congrArg (fun models? => models?.bind fun m => m[name]?) (h path)
    simpa only [Option.bind_map, Function.comp_def] using hmap
  unfold findModel?
  simp only [hbind]

end Surroundings

/-! ## Borrowing -/

namespace Promotion

variable {p : Promotion} {path : String} {d : Definition} {e : Element} {key : PrototypeKey}

/-- The promotion adds a definition in which a name that is not defined around it stands for a
sub-circuit of the user library. -/
def Borrows (p : Promotion) : Prop :=
  ∃ path d, p.Adds path d ∧ ∃ d₀, p.defs[path]? = some d₀ ∧ ∃ e ∈ d₀.elements.values,
    e.NamesCircuit p.surroundings p.defs d₀ ∧ ¬p.defs.HasAround d₀.path e.modelName ∧
      e.modelName ∈ p.before.user.circuits

/-- A definition that is added has been bound among the definitions of its text, while some of them
were resolved already; models and paths stay the same. -/
theorem Adds.exists_bind (h : p.Adds path d) (hunbound : p.defs.Unbound) :
    ∃ d₀ defs, p.defs[path]? = some d₀ ∧
      (∀ e, e ∈ d.elements.values ↔
        ∃ e₀ ∈ d₀.elements.values, (e₀.bind p.surroundings defs d₀).element = e) ∧
      (∀ e₀ : Element,
        e₀.NamesCircuit p.surroundings defs d₀ ↔ e₀.NamesCircuit p.surroundings p.defs d₀) ∧
      ∀ name, defs.HasAround d₀.path name ↔ p.defs.HasAround d₀.path name := by
  obtain ⟨d₀, paths, hd₀, -, rfl, -⟩ := Forest.exists_resolved_behind h.resolved.2.1
  refine ⟨d₀, (paths.foldl (Forest.resolveAt p.surroundings) (p.defs, [])).1, hd₀, fun e => ?_,
    fun e₀ => ?_, fun name => ?_⟩
  · rw [Definition.mem_values_resolved]
    refine exists_congr fun e₀ => and_congr_right fun he₀ => ?_
    rw [Definition.bindOne, if_pos (hunbound path d₀ hd₀ e₀ he₀)]
  · unfold Element.NamesCircuit
    rw [Surroundings.findModel?_congr
      (Forest.map_foldl_resolveAt (fun _ _ => rfl) paths (p.defs, []))]
  · refine exists_congr fun scope => and_congr_right fun _ => ?_
    have hsame := Forest.sameInterfaces_foldl_resolveAt (s := p.surroundings) paths (p.defs, [])
      (Scope.child scope name)
    rw [Std.ExtTreeMap.mem_iff_isSome_getElem?, Std.ExtTreeMap.mem_iff_isSome_getElem?,
      ← Option.isSome_map (f := Definition.interface), hsame, Option.isSome_map]

/-- What is added to the built-in library is linked to the built-in library, or it borrows. -/
theorem Adds.store_cases (h : p.Adds path d) (hunbound : p.defs.Unbound)
    (hkind : p.kind = .builtin) (he : e ∈ d.elements.values) (hkey : e.prototype? = some key) :
    key.store = .builtin ∨ (key = ⟨.user, e.modelName⟩ ∧ p.Borrows) := by
  by_cases hstore : key.store = .builtin
  · exact .inl hstore
  · have howner : p.surroundings.store ≠ .user := by
      show p.kind.store ≠ .user
      rw [hkind]
      exact Store.noConfusion
    obtain ⟨d₀, defs, hd₀, helements, hnames, haround⟩ := h.exists_bind hunbound
    obtain ⟨e₀, he₀, rfl⟩ := (helements e).1 he
    have hfree := hunbound path d₀ hd₀ e₀ he₀
    obtain ⟨hcircuit, proto, hfound⟩ :=
      Element.findSubcircuit?_of_prototype?_bind hfree hkey hstore
    have huser : key.store = .user := by
      rcases Surroundings.denotes_of_findSubcircuit? hfound with
        ⟨hown, -⟩ | ⟨huser, -⟩ | ⟨hbuiltin, -⟩
      · exact absurd (hown.trans (congrArg LibraryKind.store hkind)) hstore
      · exact huser
      · exact absurd hbuiltin hstore
    obtain ⟨rfl, hnot, hproto⟩ := Surroundings.of_findSubcircuit?_user howner hfound huser
    have hfits : (e₀.bind p.surroundings defs d₀).Fits e₀ :=
      Element.fits_bind (Element.primitive?_eq_none_of_isUnresolved hfree) d₀
    obtain ⟨binding, params, hrebound⟩ := hfits.rebound
    refine .inr ⟨?_, path, d, h, d₀, hd₀, e₀, he₀, (hnames e₀).1 hcircuit, ?_, ?_⟩
    · rw [hrebound]
      rfl
    · exact fun hhas => hnot ((haround _).2 hhas)
    · rw [Std.ExtTreeMap.mem_iff_isSome_getElem?]
      exact Option.isSome_of_eq_some hproto

/-- A definition that borrows is linked to the user library. -/
theorem Borrows.exists_link (h : p.Borrows) (hunbound : p.defs.Unbound) :
    ∃ path d, p.Adds path d ∧ ∃ e ∈ d.elements.values, ∃ name,
      e.prototype? = some ⟨.user, name⟩ := by
  obtain ⟨path, d, hadds, d₀, hd₀, e₀, he₀, hcircuit, hnot, huser⟩ := h
  obtain ⟨d₁, defs, hd₁, helements, hnames, haround⟩ := hadds.exists_bind hunbound
  obtain rfl := Option.some.inj (hd₀.symm.trans hd₁)
  rw [Std.ExtTreeMap.mem_iff_isSome_getElem?] at huser
  obtain ⟨proto, hproto⟩ := Option.isSome_iff_exists.1 huser
  have hfound := Surroundings.findSubcircuit?_of_not_hasAround (s := p.surroundings)
    (fun hhas => hnot ((haround e₀.modelName).1 hhas)) hproto
  exact ⟨path, d, hadds, _, (helements _).2 ⟨e₀, he₀, rfl⟩, e₀.modelName,
    Element.prototype?_bind_of_findSubcircuit? ((hnames e₀).2 hcircuit) hfound⟩

end Promotion

/-! ## Libraries that can be shared -/

/-- All sub-circuits that the definitions of the library are linked to belong to the store. -/
def Library.SelfContained (lib : Library) (store : Store) : Prop :=
  ∀ (path : String) (d : Definition), lib.circuits[path]? = some d →
    ∀ e ∈ d.elements.values, ∀ key, e.prototype? = some key → key.store = store

namespace Stock

variable {s s' : Stock} {ps : List Promotion}

/-- While nothing is promoted into a library, all promotions find its sub-circuits unchanged. -/
theorem Grows.circuits_before (h : s.Grows ps s') {kind : LibraryKind}
    (hother : ∀ p ∈ ps, p.kind ≠ kind) :
    ∀ p ∈ ps, (p.before.library kind).circuits = (s.library kind).circuits := by
  induction h with
  | same _ => exact List.forall_mem_nil _
  | @promote s s' p ps hsame _ ih =>
    obtain ⟨hne, hrest⟩ := List.forall_mem_cons.1 hother
    have hbefore := (hsame kind).circuits
    have hafter : (p.after.library kind).circuits = (p.before.library kind).circuits := by
      rw [Promotion.after, library_updateLibrary_of_ne hne.symm]
    refine List.forall_mem_cons.2 ⟨hbefore, fun q hq => ?_⟩
    rw [ih hrest q hq, hafter, hbefore]

/-- What leads out of the built-in library has been borrowed. -/
theorem MadeBy.link_cases (h : s.MadeBy ps) {path : String} {d : Definition}
    (hd : s.builtin.circuits[path]? = some d) {e : Element} (he : e ∈ d.elements.values)
    {key : PrototypeKey} (hkey : e.prototype? = some key) :
    key.store = .builtin ∨
      (key = ⟨.user, e.modelName⟩ ∧ ∃ p ∈ ps, p.kind = .builtin ∧ p.Borrows) := by
  obtain ⟨p, hp, hkind, hadds⟩ := h.origin .builtin path d hd
  rcases hadds.store_cases (h.unbound p hp) hkind he hkey with hown | ⟨hlink, hborrows⟩
  · exact .inl hown
  · exact .inr ⟨hlink, p, hp, hkind, hborrows⟩

/-- The built-in library is self-contained exactly if nothing in it has been borrowed. -/
theorem MadeBy.selfContained_iff (h : s.MadeBy ps) :
    s.builtin.SelfContained .builtin ↔ ∀ p ∈ ps, p.kind = .builtin → ¬p.Borrows := by
  constructor
  · intro hself p hp hkind hborrows
    obtain ⟨path, d, ⟨hadded, -⟩, e, he, name, hlink⟩ := hborrows.exists_link (h.unbound p hp)
    have hthere := (h.kept p hp).circuits path d hadded
    rw [hkind] at hthere
    exact absurd (hself path d hthere e he _ hlink) Store.noConfusion
  · intro hnone path d hd e he key hkey
    rcases h.link_cases hd he hkey with hown | ⟨-, p, hp, hkind, hborrows⟩
    · exact hown
    · exact absurd hborrows (hnone p hp hkind)

end Stock

/-- Nothing can be borrowed from an empty user library. -/
theorem Promotion.not_borrows {p : Promotion} (h : p.before.user.circuits = ∅) : ¬p.Borrows := by
  rintro ⟨-, -, -, -, -, e, -, -, -, huser⟩
  rw [h] at huser
  exact absurd huser (by simp)

namespace Workspace

variable {w : Workspace} {ps : List Promotion}

/-- While the built-in libraries are compiled anew there is nothing to borrow from. -/
theorem not_borrows_rebuild (w : Workspace) (disk : Disk) :
    ∀ p ∈ w.promotionsOfRebuild disk, ¬p.Borrows := by
  obtain ⟨hgrows, hfresh⟩ := w.grows_rebuild disk
  have hother : ∀ p ∈ w.promotionsOfRebuild disk, p.kind ≠ .user := by
    intro p hp
    rw [(hfresh p hp).1]
    exact LibraryKind.noConfusion
  intro p hp
  refine Promotion.not_borrows ?_
  have hbefore := hgrows.circuits_before hother p hp
  rw [w.library_cleared .user] at hbefore
  exact hbefore

/-- The built-in library of a workspace is linked to the user library, if at all, by names of the
user library, and never to a netlist.  It is self-contained exactly if no library text that has been
compiled into it has borrowed a sub-circuit of the user library; so it is when the user library was
empty all the time, and whenever the built-in libraries have been compiled anew. -/
theorem selfContained_builtin_iff (h : w.History ps) :
    (∀ (path : String) (d : Definition), w.builtin.circuits[path]? = some d →
        ∀ e ∈ d.elements.values, ∀ key, e.prototype? = some key →
          key.store = .builtin ∨ key = ⟨.user, e.modelName⟩) ∧
      (w.builtin.SelfContained .builtin ↔ ∀ p ∈ ps, p.kind = .builtin → ¬p.Borrows) ∧
      ((∀ p ∈ ps, p.kind = .builtin → p.before.user.circuits = ∅) →
        w.builtin.SelfContained .builtin) ∧
      ∀ disk, (w.rebuild disk).builtin.SelfContained .builtin := by
  have hmade := h.madeBy
  refine ⟨fun path d hd e he key hkey => ?_, hmade.selfContained_iff, fun hempty => ?_,
    fun disk => ?_⟩
  · exact (hmade.link_cases hd he hkey).imp_right fun hlink => hlink.1
  · exact hmade.selfContained_iff.2 fun p hp hkind => Promotion.not_borrows (hempty p hp hkind)
  · exact (madeBy_rebuild w disk).selfContained_iff.2 fun p hp _ => not_borrows_rebuild w disk p hp

/-! ## A library that borrows -/

section Idle

variable {disk : Disk} (hidle : disk.loader.Idle) (w : Workspace) (label text : String)

include hidle

/-- With an idle loader a text is promoted into the libraries that were there before. -/
theorem builtin_before_promotionOf (kind : LibraryKind) :
    (Loading.promotionOf disk.loader kind label text w).before.builtin = w.builtin := by
  have hread : (Loading.readerOf disk.loader kind label text w).Around { w with opened := [] } :=
    (Reader.keeps_around hidle _ _).ofText ⟨Nat.succ_pos _, _, _, _, rfl⟩
  exact (Reader.settle_kept _).2.2.1.trans hread.kept.2.2.1

/-- A text that is compiled into the built-in library is promoted into it. -/
theorem builtin_compileLibraryText :
    (w.compileLibraryText disk .builtin label text).1.builtin =
      w.builtin.promote (Loading.promotionOf disk.loader .builtin label text w).resolved := by
  have hstock := Loading.stock_compileText disk.loader .builtin label text w
  have hafter := (Loading.promotionOf disk.loader .builtin label text w).builtin_after rfl
  rw [← hstock, builtin_before_promotionOf hidle] at hafter
  unfold compileLibraryText
  generalize Loading.compileText disk.loader .builtin label text w = result at hafter ⊢
  exact hafter

/-- A text that is compiled into the user library leaves the built-in one alone. -/
theorem builtin_compileLibraryText_user :
    (w.compileLibraryText disk .user label text).1.builtin = w.builtin := by
  have hstock := Loading.stock_compileText disk.loader .user label text w
  have hafter : (Loading.promotionOf disk.loader .user label text w).after.library .builtin =
      (Loading.promotionOf disk.loader .user label text w).before.library .builtin :=
    Stock.library_updateLibrary_of_ne LibraryKind.noConfusion _ _
  have hbefore := builtin_before_promotionOf hidle w label text .user
  unfold compileLibraryText
  generalize Loading.compileText disk.loader .user label text w = result at hstock ⊢
  exact (congrArg Stock.builtin hstock).trans (hafter.trans hbefore)

end Idle

/-- A workspace around a library has it as its built-in one. -/
theorem builtin_around (w : Workspace) (lib : Library) :
    ({ w with builtin := lib } : Workspace).builtin = lib := rfl

/-- A new workspace is one without libraries, with the configured ones compiled into it. -/
theorem new_eq (settings : Settings) (disk : Disk) :
    Workspace.new settings disk = (withBuiltin settings Library.empty).rebuild disk := rfl

/-- Without configured libraries a new workspace has the standard library. -/
theorem new_of_nil (settings : Settings) (h : settings.builtinLibraries = []) (disk : Disk) :
    Workspace.new settings disk =
      ((withBuiltin settings Library.empty).cleared.compileLibraryText disk .builtin
        StandardLibrary.fileName StandardLibrary.text).1 := by
  have hsettings : (withBuiltin settings Library.empty).settings.builtinLibraries = [] := h
  rw [new_eq, rebuild_eq, hsettings, List.foldl_nil]

/-- The workspace around the standard library is a new one, reset. -/
theorem reset_new : (Workspace.new {} Disk.empty).reset = standard := by
  have hidle : Disk.empty.loader.Idle := Loading.idle_loader_empty _
  obtain ⟨hsettings, huser, hcompiled⟩ := Loading.kept_compileText hidle StandardLibrary.fileName
    StandardLibrary.text (withBuiltin {} Library.empty).cleared
  have hnew := new_of_nil {} rfl Disk.empty
  unfold compileLibraryText at hnew
  rw [← hnew] at hsettings huser hcompiled
  exact reset_eq_of_kept hsettings huser hcompiled

set_option maxRecDepth 100000 in
/-- The standard library has the sub-circuits of the primitive models that are no stamps. -/
theorem keys_standard : standard.builtin.circuits.keys = ["D", "J", "M", "Q"] := by
  rw [standard, builtin_around, new_of_nil {} rfl,
    builtin_compileLibraryText (Loading.idle_loader_empty _)]
  unfold Loading.promotionOf Loading.readerOf
  rw [Reader.ofText_eq_ofTokens, StandardLibrary.tokenize_text]
  decide +kernel

/-- A user library text with a sub-circuit. -/
def lendingText : String := "\"a\"\n.subckt A a b\nR1 a b 1\n.ends\n"

/-- A built-in library text with an instance of the sub-circuit. -/
def borrowingText : String := "\"b\"\n.subckt B a b\nX1 a b A\n.ends\n"

/-- A new workspace in which the user library text has been compiled. -/
def lending : Workspace :=
  [.reset, .compileLibraryText Disk.empty .user "a.lib" lendingText].foldl Operation.run
    (Workspace.new {} Disk.empty)

/-- The workspace in which then the built-in library text has been compiled. -/
def borrowing : Workspace :=
  (lending.compileLibraryText Disk.empty .builtin "b.lib" borrowingText).1

/-- The first workspace is the standard one with the user library compiled into it. -/
theorem lending_eq :
    lending = (standard.compileLibraryText Disk.empty .user "a.lib" lendingText).1 := by
  rw [lending, List.foldl_cons, List.foldl_cons, List.foldl_nil, Operation.run_reset, reset_new,
    Operation.run_compileLibraryText]

/-- The second workspace comes about by the public operations. -/
theorem reachable_borrowing : borrowing.Reachable := by
  rw [borrowing, lending_eq]
  have hlending := reachable_standard.compileLibraryText Disk.empty .user "a.lib" lendingText
  exact hlending.compileLibraryText Disk.empty .builtin "b.lib" borrowingText

set_option maxRecDepth 100000 in
/-- Of the built-in library text the sub-circuit `B` is admitted, with its link to `A` in the user
library. -/
theorem admissible_borrowing :
    (((Library.admissible (Loading.promotionOf Disk.empty.loader .builtin "b.lib" borrowingText
      lending).resolved).erase "")["B"]?).any (fun d => d.elements.values.any fun e =>
        e.prototype? == some ⟨.user, "A"⟩) = true := by
  rw [lending_eq]
  decide +kernel

/-- In the built-in library there is an instance of a sub-circuit of the user library. -/
theorem link_borrowing :
    ∃ d, borrowing.builtin.circuits["B"]? = some d ∧
      ∃ e ∈ d.elements.values, e.prototype? = some ⟨.user, "A"⟩ := by
  have hidle : Disk.empty.loader.Idle := Loading.idle_loader_empty _
  obtain ⟨d, hd, hlink⟩ := (Option.any_eq_true _ _).1 admissible_borrowing
  obtain ⟨e, he, hkey⟩ := List.any_eq_true.1 hlink
  have hnew : standard.builtin.circuits["B"]? = none := by
    refine Std.ExtTreeMap.getElem?_eq_none fun hmem => ?_
    rw [← Std.ExtTreeMap.mem_keys, keys_standard] at hmem
    exact absurd hmem (by decide)
  refine ⟨d, ?_, e, he, eq_of_beq hkey⟩
  rw [borrowing, builtin_compileLibraryText hidle, Library.getElem?_circuits_promote _ hd,
    lending_eq, builtin_compileLibraryText_user hidle, hnew, Option.getD_none]

/-- The library text has borrowed the sub-circuit; compiling the built-in libraries anew ends it. -/
theorem selfContained_builtin_iff_borrowing :
    ∃ ps, borrowing.History ps ∧ (∃ p ∈ ps, p.kind = .builtin ∧ p.Borrows) ∧
      (borrowing.rebuild Disk.empty).builtin.SelfContained .builtin := by
  obtain ⟨ps, hps⟩ := reachable_borrowing.exists_history
  obtain ⟨d, hd, e, he, hlink⟩ := link_borrowing
  obtain ⟨-, hiff, -, hrebuilt⟩ := selfContained_builtin_iff hps
  refine ⟨ps, hps, ?_, hrebuilt Disk.empty⟩
  by_contra hnone
  have hself := hiff.2 fun p hp hkind hborrows => hnone ⟨p, hp, hkind, hborrows⟩
  exact absurd (hself "B" d hd e he _ hlink) Store.noConfusion

/-- Not every built-in library can be shared. -/
theorem not_selfContained_borrowing :
    borrowing.Reachable ∧ ¬borrowing.builtin.SelfContained .builtin := by
  obtain ⟨d, hd, e, he, hlink⟩ := link_borrowing
  exact ⟨reachable_borrowing,
    fun hself => absurd (hself "B" d hd e he _ hlink) Store.noConfusion⟩

end Workspace

end FlatNet
