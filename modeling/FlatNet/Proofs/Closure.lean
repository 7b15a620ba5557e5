import FlatNet.Proofs.Bindings
import FlatNet.Proofs.Expansion.Missing
import FlatNet.Proofs.Library.Sharing

/-!
# Netlists that find everything

When a netlist has been resolved without errors, each of its instances finds its sub-circuit.  The
definitions of a library have been linked to each other before it was decided which of them are
promoted: a link to a sub-circuit that is then held back for its errors leads nowhere.  Such a link
is severed, and so may be one that leads from the built-in library to the user library.
`findsAll_prepared_iff` says that a netlist misses nothing else.
-/

set_option autoImplicit false

namespace FlatNet

open Expansion

/-! ## Links in libraries -/

namespace Promotion

variable {p : Promotion} {path : String} {d : Definition} {e : Element} {key : PrototypeKey}

/-- A definition of the text is not promoted. -/
def HoldsBack (p : Promotion) (path : String) : Prop :=
  path ∈ p.resolved ∧ path ∉ (Library.admissible p.resolved).erase ""

/-- The promotion adds a definition with a link that may lead nowhere: to a definition of the text
that is held back, or from the built-in library to the user library. -/
def Severs (p : Promotion) (key : PrototypeKey) : Prop :=
  (∃ path d, p.Adds path d ∧ ∃ e ∈ d.elements.values, e.prototype? = some key) ∧
    ((key.store = p.kind.store ∧ p.HoldsBack key.path) ∨
      (p.kind = .builtin ∧ key.store = .user))

/-- No error has been counted in what is added to a library. -/
theorem Adds.errors_eq_zero (h : p.Adds path d) : p.resolved[path]? = some d ∧ d.errors = 0 := by
  obtain ⟨-, hd, hkept⟩ := h.resolved
  have hadmissible : (Library.admissible p.resolved)[path]? = some d := by
    unfold Library.admissible
    rw [Std.ExtTreeMap.getElem?_filter', hd, Option.filter_some, hkept]
    rfl
  exact Library.errors_of_admissible hadmissible

/-- What is added to a library is bound. -/
theorem Adds.bound (h : p.Adds path d) (he : e ∈ d.elements.values) : e.isUnresolved = false :=
  Forest.bound_of_errors_eq_zero h.errors_eq_zero.1 h.errors_eq_zero.2 he

/-- What is added to a library has been linked to what was at hand when the text was resolved. -/
theorem Adds.denotes (h : p.Adds path d) (hunbound : p.defs.Unbound)
    (he : e ∈ d.elements.values) (hkey : e.prototype? = some key) :
    ∃ defs proto, p.defs.SameInterfaces defs ∧ p.surroundings.Denotes defs key proto := by
  obtain ⟨hd, hzero⟩ := h.errors_eq_zero
  obtain ⟨d₀, defs, hd₀, rfl, -, hsame⟩ := Forest.resolve_spec hd
  obtain ⟨e₀, he₀, rfl⟩ := Definition.mem_values_resolved.1 he
  have hnil := Definition.findings_bindOne_eq_nil he₀ (Definition.errors_of_resolved hzero).2
  have hbind : d₀.bindOne p.surroundings defs e₀ = e₀.bind p.surroundings defs d₀ :=
    if_pos (hunbound path d₀ hd₀ e₀ he₀)
  rw [hbind] at hnil hkey
  obtain ⟨proto, hdenotes, -⟩ := Element.checked_bind e₀ _ defs d₀ hnil key hkey
  exact ⟨defs, proto, hsame, hdenotes⟩

/-- A link of what is added to a library leads to something that is in the libraries afterwards, or
it is severed. -/
theorem Adds.found_or_severs (h : p.Adds path d) (hunbound : p.defs.Unbound)
    (he : e ∈ d.elements.values) (hkey : e.prototype? = some key) :
    (∃ kind proto, (kind = p.kind ∨ kind = .builtin) ∧ key.store = kind.store ∧
      (p.after.library kind).circuits[key.path]? = some proto) ∨ p.Severs key := by
  obtain ⟨defs, proto, hsame, hdenotes⟩ := h.denotes hunbound he hkey
  have hlink : ∃ path d, p.Adds path d ∧ ∃ e ∈ d.elements.values, e.prototype? = some key :=
    ⟨path, d, h, e, he, hkey⟩
  rcases hdenotes with ⟨hstore, hproto⟩ | ⟨hstore, hproto⟩ | ⟨hstore, hproto⟩
  · -- a definition of the text itself
    by_cases hkept : key.path ∈ (Library.admissible p.resolved).erase ""
    · rw [Std.ExtTreeMap.mem_iff_isSome_getElem?] at hkept
      obtain ⟨found, hfound⟩ := Option.isSome_iff_exists.1 hkept
      have hadded := Library.getElem?_circuits_promote (p.before.library p.kind) hfound
      rw [← library_after] at hadded
      exact .inl ⟨p.kind, _, .inl rfl, hstore, hadded⟩
    · refine .inr ⟨hlink, .inl ⟨hstore, ?_, hkept⟩⟩
      have hresolved : p.defs.SameInterfaces p.resolved :=
        Forest.sameInterfaces_foldl_resolveAt _ (p.defs, [])
      have hthere := (hsame key.path).trans (hresolved key.path).symm
      rw [hproto] at hthere
      obtain ⟨found, hfound, -⟩ := Option.map_eq_some_iff.1 hthere.symm
      rw [Std.ExtTreeMap.mem_iff_isSome_getElem?, hfound]
      rfl
  · -- a definition of the user library
    cases hkind : p.kind with
    | builtin => exact .inr ⟨hlink, .inr ⟨hkind, hstore⟩⟩
    | user =>
      exact .inl ⟨.user, proto, .inl rfl, hstore,
        (p.within_after .user).circuits key.path proto hproto⟩
  · exact .inl ⟨.builtin, proto, .inr rfl, hstore,
      (p.within_after .builtin).circuits key.path proto hproto⟩

end Promotion

namespace Stock

variable {s : Stock} {ps : List Promotion} {kind : LibraryKind} {path : String} {d : Definition}
  {e : Element} {key : PrototypeKey}

/-- What stands in a library is bound. -/
theorem MadeBy.bound (h : s.MadeBy ps) (hd : (s.library kind).circuits[path]? = some d)
    (he : e ∈ d.elements.values) : e.isUnresolved = false := by
  obtain ⟨p, -, -, hadds⟩ := h.origin kind path d hd
  exact hadds.bound he

/-- A link in a library leads to something in a library, or it has been severed. -/
theorem MadeBy.found_or_severed (h : s.MadeBy ps)
    (hd : (s.library kind).circuits[path]? = some d) (he : e ∈ d.elements.values)
    (hkey : e.prototype? = some key) :
    (∃ kind proto, key.store = kind.store ∧
      (s.library kind).circuits[key.path]? = some proto) ∨ ∃ p ∈ ps, p.Severs key := by
  obtain ⟨p, hp, -, hadds⟩ := h.origin kind path d hd
  rcases hadds.found_or_severs (h.unbound p hp) he hkey with
    ⟨kind', proto, hkind, hstore, hfound⟩ | hsevers
  · refine .inl ⟨kind', proto, hstore, ?_⟩
    rcases hkind with rfl | rfl
    · exact (h.kept p hp).circuits key.path proto hfound
    · exact (h.builtin p hp).circuits key.path proto hfound
  · exact .inr ⟨p, hp, hsevers⟩

end Stock

/-! ## Netlists -/

namespace Workspace

variable {w : Workspace} {ps : List Promotion} {disk : Disk} {label text : String}
  {key : PrototypeKey} {d : Definition} {e : Element}

/-- All elements of the definitions that a netlist uses are bound, every sub-circuit that they ask
for is there, and flattening reports nothing missing. -/
structure FindsAll (w : Workspace) : Prop where
  bound : ∀ d, w.expansionSetting.Uses w.netlist d → ∀ e ∈ d.elements.values,
    e.isUnresolved = false
  found : ∀ d, w.expansionSetting.Uses w.netlist d → ∀ e ∈ d.elements.values, ∀ key,
    e.prototype? = some key → ∃ proto, (w.definitions key.store)[key.path]? = some proto
  unreported : ∀ f ∈ w.expansionFindings, f.isMissing = false

/-- A netlist that finds everything lacks nothing. -/
theorem FindsAll.not_lacks (h : w.FindsAll) (key : PrototypeKey) : ¬w.Lacks key := by
  rintro ⟨⟨d, hd, e, he, hkey⟩, hnone⟩
  obtain ⟨proto, hproto⟩ := h.found d hd e he key hkey
  exact absurd (hnone.symm.trans hproto) (by simp)

/-- A netlist finds everything if its elements are bound and nothing is lacking. -/
theorem findsAll_of_not_lacks
    (hbound : ∀ d, w.expansionSetting.Uses w.netlist d → ∀ e ∈ d.elements.values,
      e.isUnresolved = false)
    (hkeyed : Keyed w.netlist.elements) (hnone : ∀ key, ¬w.Lacks key) : w.FindsAll where
  bound := hbound
  found := fun d hd e he key hkey =>
    Option.ne_none_iff_exists'.1 fun hlost => hnone key ⟨⟨d, hd, e, he, hkey⟩, hlost⟩
  unreported := by
    intro f hf
    refine Bool.eq_false_iff.2 fun hmissing => ?_
    obtain ⟨-, key, -, hlacks⟩ := lacks_of_isMissing hkeyed hbound hf hmissing
    exact hnone key hlacks

/-- A key of a library stands for a sub-circuit of the library. -/
theorem prototype?_of_store {kind : LibraryKind} (hstore : key.store = kind.store) :
    w.expansionSetting.prototype? key = (w.stock.library kind).circuits[key.path]? := by
  rw [prototype?_eq, hstore]
  cases kind <;> rfl

/-- A definition that does not stand in a netlist stands in a library. -/
theorem exists_library_of_prototype? (hstore : key.store ≠ .netlist)
    (hd : w.expansionSetting.prototype? key = some d) :
    ∃ kind, (w.stock.library kind).circuits[key.path]? = some d := by
  rw [prototype?_eq] at hd
  cases h : key.store with
  | netlist => exact absurd h hstore
  | user =>
    rw [h] at hd
    exact ⟨.user, hd⟩
  | builtin =>
    rw [h] at hd
    exact ⟨.builtin, hd⟩

/-- Resolution leaves the libraries alone. -/
theorem stock_resolve (w : Workspace) : w.resolve.1.stock = w.stock := rfl

/-- The libraries that a netlist is flattened with have been made by the promotions of the history
and by those for the libraries that the netlist loads. -/
theorem History.madeBy_readNetlist (h : w.History ps) (disk : Disk) (label text : String) :
    (w.readNetlist disk label text).resolve.1.stock.MadeBy
      (ps ++ w.promotionsOfCompile disk label text) := by
  rw [stock_resolve]
  exact h.madeBy.grows (grows_readNetlist w disk label text)
    (unbound_promotions h.reachable.plain (.compile disk label text))

section Resolved

variable (hunbound : ∀ (path : String) (d : Definition), w.forest[path]? = some d → d.Unbound)
  {root : Definition} (hroot : w.forest[""]? = some root)
  (herrors : w.resolve.1.forestErrors = 0) (hmade : w.resolve.1.stock.MadeBy ps)

include hroot herrors hmade

/-- All elements of the definitions that a resolved netlist uses are bound. -/
theorem bound_of_uses (hd : w.resolve.1.expansionSetting.Uses w.resolve.1.netlist d)
    (he : e ∈ d.elements.values) : e.isUnresolved = false := by
  have hown : ∀ (path : String) (d : Definition), w.resolve.1.forest[path]? = some d →
      ∀ e ∈ d.elements.values, e.isUnresolved = false := fun path d hd e he =>
    Forest.bound_of_errors_eq_zero hd (errors_eq_zero_of_forestErrors herrors hd) he
  rcases cases_of_uses hd with rfl | ⟨path, hpath⟩ | ⟨key, hstore, hkey⟩
  · exact hown "" _ (forest_resolve_root hroot) e he
  · exact hown path d hpath e he
  · obtain ⟨kind, hkind⟩ := exists_library_of_prototype? hstore hkey
    exact hmade.bound hkind he

include hunbound

/-- What a resolved netlist lacks is the sub-circuit of a severed link. -/
theorem severed_of_lacks (hlacks : w.resolve.1.Lacks key) : ∃ p ∈ ps, p.Severs key := by
  obtain ⟨⟨d, hd, e, he, hkey⟩, hnone⟩ := hlacks
  have hown : ∀ (path : String) (d : Definition), w.resolve.1.forest[path]? = some d →
      e ∉ d.elements.values := by
    intro path d hd he
    obtain ⟨proto, hproto, -⟩ := fits_of_resolved hunbound herrors hd he hkey
    exact absurd (hnone.symm.trans hproto) (by simp)
  rcases cases_of_uses hd with rfl | ⟨path, hpath⟩ | ⟨around, hstore, haround⟩
  · exact absurd he (hown "" _ (forest_resolve_root hroot))
  · exact absurd he (hown path d hpath)
  · obtain ⟨kind, hkind⟩ := exists_library_of_prototype? hstore haround
    rcases hmade.found_or_severed hkind he hkey with ⟨kind', proto, hstore', hproto⟩ | hsevered
    · rw [prototype?_of_store hstore', hproto] at hnone
      exact absurd hnone (by simp)
    · exact hsevered

end Resolved

/-- A netlist that has been resolved without errors finds everything unless a link has been severed.
All elements that it uses are bound.  Whatever it misses when it is flattened is a sub-circuit that
a definition in a library asks for, and the link to it has been severed by the promotion of that
definition.  So it finds everything exactly if the sub-circuit is there nevertheless for every
severed link that it uses; in particular it does if no link has ever been severed, and if nothing is
found wrong with it. -/
theorem findsAll_prepared_iff (h : w.History ps)
    (hprepared : (w.prepare disk label text).forestErrors = 0) :
    (∀ d, (w.prepare disk label text).expansionSetting.Uses (w.prepare disk label text).netlist d →
        ∀ e ∈ d.elements.values, e.isUnresolved = false) ∧
      (∀ f ∈ (w.prepare disk label text).expansionFindings, f.isMissing = true →
        ∃ refDes key, f.problem = .unknownSubcircuit refDes key.path ∧
          (w.prepare disk label text).Lacks key) ∧
      (∀ key, (w.prepare disk label text).Lacks key →
        ∃ p ∈ ps ++ w.promotionsOfCompile disk label text, p.Severs key) ∧
      ((w.prepare disk label text).expansionFindings = [] →
        (w.prepare disk label text).FindsAll) ∧
      ((w.prepare disk label text).FindsAll ↔
        ∀ p ∈ ps ++ w.promotionsOfCompile disk label text, ∀ key, p.Severs key →
          ¬(w.prepare disk label text).Lacks key) := by
  have hmade := h.madeBy_readNetlist disk label text
  have hregular := h.reachable.regular.readNetlist disk label text
  obtain ⟨hunbound, root, hroot⟩ := w.unbound_readNetlist disk label text
  unfold prepare at hprepared ⊢
  generalize w.readNetlist disk label text = read at *
  generalize ps ++ w.promotionsOfCompile disk label text = made at *
  have hnetlist := forest_resolve_root hroot
  have hkeyed := (hregular.resolve.forest "" _ hnetlist).keyed
  have hbound := fun d hd e he => bound_of_uses (d := d) (e := e) hroot hprepared hmade hd he
  have hmissing := fun f hf hmissing => lacks_of_isMissing (f := f) hkeyed hbound hf hmissing
  have hsevered : ∀ key, read.resolve.1.Lacks key → ∃ p ∈ made, p.Severs key :=
    fun key hlacks => severed_of_lacks hunbound hroot hprepared hmade hlacks
  have hfinds : (∀ key, ¬read.resolve.1.Lacks key) → read.resolve.1.FindsAll :=
    findsAll_of_not_lacks hbound hkeyed
  refine ⟨hbound, hmissing, hsevered, fun hquiet => ?_, fun hall p _ key _ => ?_, fun hsevers => ?_⟩
  · exact hfinds fun key => not_lacks_of_quiet hnetlist hkeyed (hbound _ .root) hquiet key
  · exact hall.not_lacks key
  · refine hfinds fun key hlacks => ?_
    obtain ⟨p, hp, hkey⟩ := hsevered key hlacks
    exact hsevers p hp key hkey hlacks

/-! ## A severed link -/

/-- A library text with a faulty sub-circuit and one that has an instance of it. -/
def severingText : String :=
  "\"a\"\n.subckt bad a b\nR1 a\n.ends\n.subckt good a b\nX1 a b bad\n.ends\n"

/-- A netlist with an instance of the second one. -/
def severedText : String := "t\nX1 1 0 good\n.end\n"

/-- A new workspace in which the library text has been compiled. -/
def severing : Workspace :=
  [.reset, .compileLibraryText Disk.empty .user "a.lib" severingText].foldl Operation.run
    (Workspace.new {} Disk.empty)

/-- The workspace is the standard one with the library text compiled into it. -/
theorem severing_eq :
    severing = (standard.compileLibraryText Disk.empty .user "a.lib" severingText).1 := by
  rw [severing, List.foldl_cons, List.foldl_cons, List.foldl_nil, Operation.run_reset, reset_new,
    Operation.run_compileLibraryText]

/-- The workspace comes about by the public operations. -/
theorem reachable_severing : severing.Reachable := by
  rw [severing_eq]
  exact reachable_standard.compileLibraryText Disk.empty .user "a.lib" severingText

set_option maxRecDepth 100000 in
/-- No error is counted in the netlist when its names have been resolved. -/
theorem forestErrors_severed :
    (severing.prepare Disk.empty "main.cir" severedText).forestErrors = 0 := by
  rw [severing_eq]
  decide +kernel

set_option maxRecDepth 100000 in
/-- Flattening misses the faulty sub-circuit. -/
theorem missing_severed :
    (severing.prepare Disk.empty "main.cir" severedText).expansionFindings.any
      (fun f => f.problem == .unknownSubcircuit "X1_X1" "bad") = true := by
  rw [severing_eq]
  decide +kernel

/-- A sub-circuit is reported missing when the netlist is flattened. -/
theorem exists_missing_severed :
    ∃ f ∈ (severing.prepare Disk.empty "main.cir" severedText).expansionFindings,
      f.isMissing = true ∧ f.problem = .unknownSubcircuit "X1_X1" "bad" := by
  obtain ⟨f, hf, hproblem⟩ := List.any_eq_true.1 missing_severed
  refine ⟨f, hf, ?_, eq_of_beq hproblem⟩
  unfold Finding.isMissing
  rw [eq_of_beq hproblem]

/-- The link to the faulty sub-circuit has been severed. -/
theorem findsAll_prepared_iff_severed :
    ∃ ps, severing.History ps ∧
      (severing.prepare Disk.empty "main.cir" severedText).forestErrors = 0 ∧
      ∃ p ∈ ps ++ severing.promotionsOfCompile Disk.empty "main.cir" severedText,
        ∃ key, p.Severs key ∧ key.path = "bad" := by
  obtain ⟨ps, hps⟩ := reachable_severing.exists_history
  obtain ⟨-, hmissing, hsevered, -, -⟩ := findsAll_prepared_iff hps forestErrors_severed
  obtain ⟨f, hf, hfmissing, hproblem⟩ := exists_missing_severed
  obtain ⟨refDes, key, hkey, hlacks⟩ := hmissing f hf hfmissing
  obtain ⟨p, hp, hsevers⟩ := hsevered key hlacks
  refine ⟨ps, hps, forestErrors_severed, p, hp, key, hsevers, ?_⟩
  rw [hproblem] at hkey
  exact (Problem.unknownSubcircuit.inj hkey).2.symm

/-- The netlist is resolved without errors, and still it does not find everything. -/
theorem not_findsAll_severed :
    severing.Reachable ∧
      (severing.prepare Disk.empty "main.cir" severedText).forestErrors = 0 ∧
      ¬(severing.prepare Disk.empty "main.cir" severedText).FindsAll := by
  refine ⟨reachable_severing, forestErrors_severed, fun hall => ?_⟩
  obtain ⟨f, hf, hmissing, -⟩ := exists_missing_severed
  rw [hall.unreported f hf] at hmissing
  exact absurd hmissing (by simp)

end Workspace

end FlatNet
