import FlatNet.Proofs.Library.Loading
import FlatNet.Proofs.Reading.Blame

/-!
# Library texts that have been read

When a library text has been read, all its definitions stand in the forest; they are taken out
again, resolved and added to the library, apart from those that are excluded for errors in them or
around them.  `Settled` carries over what is known while the text is read, and `hasErrors_of_mem`
adds resolution: whatever is found wrong in a body is counted in the sub-circuit, so that the
sub-circuit is excluded together with what is inside it.
-/

set_option autoImplicit false

namespace FlatNet

open Loading (belongsTo belongsTo_iff belongsTo_self namespaceOf)
open Outline (openOn)
open Scope (Under)

namespace Scope

/-- What a path belongs to encloses it. -/
theorem encloses_of_belongsTo {outer path : String} (h : Loading.belongsTo outer path = true) :
    Encloses outer path := by
  rcases belongsTo_iff.1 h with rfl | hrest
  · exact encloses_refl path
  · exact .inr (.inl (isWithin_iff.2 hrest))

variable {space path : String}

/-- What is left of a path inside a text is the part behind the namespace. -/
theorem toList_relativeTo {name : List Char} (h : path.toList = space.toList ++ '/' :: name) :
    (relativeTo space path).toList = name := by
  unfold relativeTo
  rw [if_pos (isWithin_iff.2 ⟨name, h⟩), String.toList_ofList, h, ← String.length_toList,
    List.drop_append, List.drop_eq_nil_of_le (Nat.le_succ _)]
  simp

/-- A text has no path inside itself. -/
theorem relativeTo_self (space : String) : relativeTo space space = "" := by
  unfold relativeTo
  rw [if_neg]
  rw [isWithin_iff]
  rintro ⟨rest, hrest⟩
  exact absurd (congrArg List.length hrest) (by simp)

/-- A sub-circuit has a path inside its text. -/
theorem relativeTo_ne_empty (h : Under space path) : relativeTo space path ≠ "" := by
  obtain ⟨name, hne, hname⟩ := h
  intro hempty
  have hlist := toList_relativeTo hname
  rw [hempty] at hlist
  exact hne hlist.symm

/-- Sub-circuits of a text have different paths inside it if they have different paths. -/
theorem eq_of_relativeTo_eq {path' : String} (h : Under space path) (h' : Under space path')
    (heq : relativeTo space path = relativeTo space path') : path = path' := by
  obtain ⟨name, -, hname⟩ := h
  obtain ⟨name', -, hname'⟩ := h'
  have hsame : name = name' := by
    rw [← toList_relativeTo hname, ← toList_relativeTo hname', heq]
  exact String.toList_inj.1 (by rw [hname, hname', hsame])

/-- Inside a text paths lie in each other as they do outside. -/
theorem belongsTo_relativeTo {outer : String} (houter : Under space outer)
    (hpath : Under space path) (h : Loading.belongsTo outer path = true) :
    Loading.belongsTo (relativeTo space outer) (relativeTo space path) = true := by
  obtain ⟨name, -, hname⟩ := houter
  obtain ⟨name', -, hname'⟩ := hpath
  rw [belongsTo_iff] at h ⊢
  rcases h with rfl | ⟨rest, hrest⟩
  · exact .inl rfl
  · refine .inr ⟨rest, ?_⟩
    rw [toList_relativeTo hname, toList_relativeTo hname']
    rw [hname, hname', List.append_assoc] at hrest
    exact (List.cons.inj (List.append_cancel_left hrest)).2

end Scope

/-! ## Places of findings -/

namespace Element

variable {e : Element} {s : Surroundings} {defs : Forest}

/-- What is found wrong with the parameters of an element is placed at the element. -/
theorem origin_of_mem_paramFindings {p : Primitive} {f : Finding} (h : f ∈ e.paramFindings p) :
    f.origin = some e.origin := by
  obtain ⟨⟨name, value⟩, -, hsome⟩ := List.mem_filterMap.1 h
  dsimp only at hsome
  split at hsome
  · rw [← Option.some.inj hsome]
    rfl
  · split at hsome
    · rw [← Option.some.inj hsome]
      rfl
    · exact absurd hsome (by simp)

/-- What is found wrong with an instance is placed at the instance. -/
theorem origin_of_mem_instanceFindings {proto : Definition} {f : Finding}
    (h : f ∈ e.instanceFindings proto) : f.origin = some e.origin := by
  rcases List.mem_append.1 h with h | h
  · split at h
    · exact absurd h List.not_mem_nil
    · rw [List.mem_singleton.1 h]
      rfl
  · obtain ⟨name, -, rfl⟩ := List.mem_map.1 h
    rfl

/-- What is found wrong in binding to a primitive model is placed at the element. -/
theorem origin_of_mem_bindPrimitive {p : Primitive} {f : Finding}
    (h : f ∈ (e.bindPrimitive s defs p).findings) : f.origin = some e.origin := by
  unfold bindPrimitive at h
  split at h
  · exact absurd h List.not_mem_nil
  · split at h
    · rw [List.mem_singleton.1 h]
      rfl
    · exact origin_of_mem_instanceFindings (e := e.withDefaults _) h

/-- What is found wrong in binding to a named model is placed at the element. -/
theorem origin_of_mem_bindModel {p : Primitive} {card : Option ModelCard} {f : Finding}
    (h : f ∈ (e.bindModel s defs p card).findings) : f.origin = some e.origin := by
  unfold bindModel at h
  split at h
  · rcases List.mem_append.1 h with h | h
    · exact origin_of_mem_paramFindings h
    · have horigin := origin_of_mem_bindPrimitive h
      cases card with
      | none => exact horigin
      | some card => exact horigin
  · rw [List.mem_singleton.1 h]
    rfl

/-- What is found wrong when an element is bound is found at the element. -/
theorem origin_of_mem_bind {owner : Definition} {f : Finding}
    (h : f ∈ (e.bind s defs owner).findings) : f.origin = some e.origin := by
  have hbound := e.boundBy_bind s defs owner
  generalize e.bind s defs owner = b at hbound h
  cases hbound with
  | circuit _ _ => exact origin_of_mem_instanceFindings h
  | primitive _ _ | card _ _ _ _ => exact origin_of_mem_bindModel h
  | unknownCircuit _ _ | unknownModel _ _ _ | unknownBase _ _ =>
    rw [List.mem_singleton.1 h]
    rfl

end Element

/-- What is found wrong with a model card is placed at the card. -/
theorem ModelCard.origin_of_mem_findings {card : ModelCard} {severity : Severity} {f : Finding}
    (h : f ∈ card.findings severity) : f.origin = some card.origin := by
  unfold findings at h
  split at h
  · rw [List.mem_singleton.1 h]
    rfl
  · obtain ⟨⟨name, value⟩, -, hsome⟩ := List.mem_filterMap.1 h
    dsimp only at hsome
    split at hsome
    · rw [← Option.some.inj hsome]
      rfl
    · split at hsome
      · rw [← Option.some.inj hsome]
      · exact absurd hsome (by simp)

/-- What is found wrong when a definition is resolved is found at one of its elements or models. -/
theorem Definition.origin_of_mem_resolve {d : Definition} {s : Surroundings} {defs : Forest}
    {f : Finding} (h : f ∈ (d.resolve s defs).2) : ∃ origin ∈ d.places, f.origin = some origin := by
  rcases List.mem_append.1 h with h | h
  · rcases List.mem_append.1 h with h | h
    · obtain ⟨e, he, hf⟩ := List.mem_flatMap.1 h
      obtain ⟨target, -, rfl⟩ := List.mem_map.1 hf
      exact ⟨e.origin, List.mem_append_left _ (List.mem_map_of_mem he), rfl⟩
    · obtain ⟨card, hcard, hf⟩ := List.mem_flatMap.1 h
      exact ⟨card.origin, List.mem_append_right _ (List.mem_map_of_mem hcard),
        ModelCard.origin_of_mem_findings hf⟩
  · obtain ⟨e, he, hf⟩ := List.mem_flatMap.1 h
    refine ⟨e.origin, List.mem_append_left _ (List.mem_map_of_mem he), ?_⟩
    unfold bindOne at hf
    split at hf
    · exact Element.origin_of_mem_bind hf
    · exact absurd hf List.not_mem_nil

namespace Forest

variable {s : Surroundings} {forest : Forest}

/-- What is found wrong in a row of resolutions is found in one of the definitions, which counts
it. -/
theorem exists_of_mem_foldl_resolveAt {paths : List String} (hnodup : paths.Nodup)
    (state : Forest × List Finding) {f : Finding}
    (h : f ∈ (paths.foldl (resolveAt s) state).2) :
    f ∈ state.2 ∨ ∃ path ∈ paths, ∃ (d : Definition) (defs : Forest),
      state.1[path]? = some d ∧ f ∈ (d.resolve s defs).2 ∧
        (paths.foldl (resolveAt s) state).1[path]? = some (d.resolved s defs) := by
  induction paths generalizing state with
  | nil => exact .inl h
  | cons first rest ih =>
    obtain ⟨hfirst, hrest⟩ := List.nodup_cons.1 hnodup
    rw [List.foldl_cons] at h ⊢
    rcases ih hrest (resolveAt s state first) h with hf | ⟨path, hpath, d, defs, hd, hf, hget⟩
    · cases hstate : state.1[first]? with
      | none =>
        unfold resolveAt at hf
        rw [hstate] at hf
        exact .inl hf
      | some d =>
        have hat := resolveAt_of_getElem? (s := s) hstate
        rw [hat] at hf
        rcases List.mem_append.1 hf with hf | hf
        · exact .inl hf
        · refine .inr ⟨first, List.mem_cons_self, d, state.1, hstate, hf, ?_⟩
          rw [getElem?_foldl_resolveAt_of_not_mem hfirst, hat]
          exact Std.ExtTreeMap.getElem?_insert_self
    · refine .inr ⟨path, List.mem_cons_of_mem first hpath, d, defs, ?_, hf, hget⟩
      rw [← hd]
      refine (getElem?_resolveAt_of_ne ?_).symm
      rintro rfl
      exact hfirst hpath

/-- What is found wrong when a forest is resolved is found in one of its definitions, which counts
it. -/
theorem exists_of_mem_resolve {f : Finding} (h : f ∈ (forest.resolve s).2) :
    ∃ (path : String) (d : Definition) (defs : Forest),
      forest[path]? = some d ∧ f ∈ (d.resolve s defs).2 ∧
      (forest.resolve s).1[path]? = some (d.resolved s defs) := by
  rcases exists_of_mem_foldl_resolveAt (nodup_keys forest) (forest, []) h with hf | hf
  · exact absurd hf List.not_mem_nil
  · obtain ⟨path, -, d, defs, hd, hf, hget⟩ := hf
    exact ⟨path, d, defs, hd, hf, hget⟩

end Forest

/-! ## Taking definitions out of the forest -/

namespace NameMap

variable {α β : Type} {key : β → String} {value : β → α} {entries : List β} {m : NameMap α}

/-- What stands under a name after a row of insertions was there before, or is one of them. -/
theorem getElem?_foldl_insert {name : String} {a : α}
    (h : (entries.foldl (fun m b => m.insert (key b) (value b)) m)[name]? = some a) :
    m[name]? = some a ∨ ∃ b ∈ entries, key b = name ∧ value b = a := by
  induction entries generalizing m with
  | nil => exact .inl h
  | cons b rest ih =>
    rcases ih h with hm | ⟨b', hb', hkey⟩
    · rcases getElem?_of_insert hm with ⟨rfl, rfl⟩ | hold
      · exact .inr ⟨b, List.mem_cons_self, rfl, rfl⟩
      · exact .inl hold
    · exact .inr ⟨b', List.mem_cons_of_mem b hb', hkey⟩

/-- A row of insertions that agree on a name keeps the value there. -/
theorem getElem?_foldl_insert_of_getElem? {name : String} {a : α}
    (hagree : ∀ b ∈ entries, key b = name → value b = a) (h : m[name]? = some a) :
    (entries.foldl (fun m b => m.insert (key b) (value b)) m)[name]? = some a := by
  induction entries generalizing m with
  | nil => exact h
  | cons b rest ih =>
    obtain ⟨hb, hrest⟩ := List.forall_mem_cons.1 hagree
    refine ih hrest ?_
    rw [Std.ExtTreeMap.getElem?_insert]
    split
    · rename_i heq
      rw [hb (Std.LawfulEqCmp.compare_eq_iff_eq.1 heq)]
    · exact h

/-- An insertion counts if those under the same name agree with it. -/
theorem getElem?_foldl_insert_of_mem (key : β → String) (value : β → α) {b : β} (hb : b ∈ entries)
    (hagree : ∀ b' ∈ entries, key b' = key b → value b' = value b) :
    (entries.foldl (fun m b => m.insert (key b) (value b)) m)[key b]? = some (value b) := by
  obtain ⟨before, behind, rfl⟩ := List.append_of_mem hb
  rw [List.foldl_append, List.foldl_cons]
  refine getElem?_foldl_insert_of_getElem? (fun b' hb' => hagree b' ?_)
    Std.ExtTreeMap.getElem?_insert_self
  exact List.mem_append_right _ (List.mem_cons_of_mem b hb')

end NameMap

namespace Loading

variable {forest : Forest} {space path : String} {d : Definition}

/-- The definitions in a namespace are those of the text that have been closed. -/
theorem mem_entries_iff {entry : String × Definition} :
    entry ∈ forest.toList.filter (fun entry => belongsTo space entry.1) ↔
      Closed space forest entry.1 entry.2 := by
  rw [List.mem_filter, and_comm]
  exact and_congr_right fun _ => Std.ExtTreeMap.mem_toList_iff_getElem?_eq_some

/-- What is taken out of a forest are definitions of the text. -/
theorem exists_of_extracted (h : (extracted forest space)[path]? = some d) :
    ∃ (outside : String) (d₀ : Definition), Closed space forest outside d₀ ∧
      Scope.relativeTo space outside = path ∧ d = { d₀ with path } := by
  unfold extracted at h
  rcases NameMap.getElem?_foldl_insert h with hempty | ⟨entry, hentry, hkey, hvalue⟩
  · exact absurd hempty (by simp)
  · refine ⟨entry.1, entry.2, mem_entries_iff.1 hentry, hkey, ?_⟩
    rw [← hvalue, ← hkey]

/-- A definition of the text is taken out of the forest if no other one has its path inside the
text. -/
theorem extracted_of_closed (h : Closed space forest path d)
    (hunique : ∀ other d', Closed space forest other d' →
      Scope.relativeTo space other = Scope.relativeTo space path → other = path) :
    (extracted forest space)[Scope.relativeTo space path]? =
      some { d with path := Scope.relativeTo space path } := by
  unfold extracted
  have hmem : (path, d) ∈ forest.toList.filter (fun entry => belongsTo space entry.1) :=
    mem_entries_iff.2 h
  refine NameMap.getElem?_foldl_insert_of_mem
    (fun entry : String × Definition => Scope.relativeTo space entry.1)
    (fun entry : String × Definition =>
      { entry.2 with path := Scope.relativeTo space entry.1 }) hmem ?_
  intro entry hentry hkey
  have hclosed := mem_entries_iff.1 hentry
  have hpath : entry.1 = path := hunique entry.1 entry.2 hclosed hkey
  obtain ⟨other, d'⟩ := entry
  obtain rfl : other = path := hpath
  obtain rfl : d' = d := Option.some.inj (hclosed.2.symm.trans h.2)
  rfl

end Loading

namespace Library

/-- What is new in a library after a promotion is one of the definitions, and it is not excluded. -/
theorem getElem?_promote {lib : Library} {defs : Forest} {path : String} {d : Definition}
    (h : (lib.promote defs).circuits[path]? = some d) (hnew : lib.circuits[path]? = none) :
    path ≠ "" ∧ defs[path]? = some d ∧ isExcluded defs path = false := by
  have hcircuits : (lib.promote defs).circuits =
      NameMap.keepFirst lib.circuits ((admissible defs).erase "") := by
    unfold Library.promote
    dsimp only
    split <;> rfl
  rw [hcircuits] at h
  rcases NameMap.getElem?_keepFirst h with hold | hadded
  · rw [hnew] at hold
    exact absurd hold (by simp)
  · rw [Std.ExtTreeMap.getElem?_erase] at hadded
    split at hadded
    · exact absurd hadded (by simp)
    · rename_i hne
      unfold admissible at hadded
      rw [Std.ExtTreeMap.getElem?_filter'] at hadded
      obtain ⟨hd, hkept⟩ := Option.filter_eq_some_iff.1 hadded
      refine ⟨?_, hd, by simpa using hkept⟩
      rintro rfl
      exact hne (Std.LawfulEqCmp.compare_eq_iff_eq.2 rfl)

end Library

/-! ## Texts that have been read -/

/-- What is known of the definitions of a text that has been read, its own one among them. -/
structure Settled (lines : List (List Token)) (faults : List Finding) (space : String)
    (forest : Forest) (findings : List Finding) : Prop where
  under : ∀ path d, Closed space forest path d →
    path = space ∧ d.mark space = none ∨ Under space path ∧ ∃ number, d.mark space = some number
  /-- What was around a sub-circuit is at hand, or it has been dropped. -/
  around : ∀ path d, Closed space forest path d → ∀ number, d.mark space = some number →
    ∀ start ∈ openOn lines number, Dropped findings start ∨
      ∃ path' outer, Closed space forest path' outer ∧ outer.mark space = some start ∧
        belongsTo path' path = true
  unique : ∀ path d path' d', Closed space forest path d → Closed space forest path' d' →
    ∀ number, d.mark space = some number → d'.mark space = some number → path = path'
  placed : ∀ path d, Closed space forest path d → ∀ origin ∈ d.places,
    (openOn lines origin.line).head? = d.mark space
  blamed : ∀ f ∈ findings, f.isError = true → f ∈ faults ∨
    ∀ origin, f.origin = some origin → ∀ start, InBody lines start origin.line →
      ∀ path d, Closed space forest path d → d.mark space = some start → 0 < d.errors

/-- When the text's own definition has been added, all definitions at hand are in the forest. -/
theorem Tracks.settled {lines : List (List Token)} {faults : List Finding} {space : String}
    {bound : Nat} {root : Definition} {forest : Forest} {findings : List Finding}
    (h : Tracks lines faults space bound [root] forest findings) :
    Settled lines faults space (forest.insert root.path root) findings := by
  have hroot : root.path = space := by
    cases h.nest with
    | text hroot => exact hroot
    | sub haround _ _ _ _ _ => exact absurd haround.nonempty (Nat.lt_irrefl 0)
  have hmark : root.mark space = none := Definition.mark_of_path_eq hroot
  have hnew : forest[root.path]? = none := by
    refine Option.eq_none_iff_forall_ne_some.2 fun d hd => ?_
    have hbelongs : belongsTo space root.path = true := hroot ▸ belongsTo_self _
    obtain ⟨-, hunder, -⟩ := h.under root.path d ⟨hbelongs, hd⟩
    exact hunder.ne hroot
  have hknown : ∀ path d, Closed space (forest.insert root.path root) path d →
      Known space [root] forest d := fun path d hd => Known.of_insert (.inr ⟨path, hd⟩)
  have hmarked : ∀ path d number, Closed space (forest.insert root.path root) path d →
      d.mark space = some number → Closed space forest path d := by
    intro path d number hd hnumber
    rcases hd.of_insert with ⟨-, rfl⟩ | hold
    · rw [hmark] at hnumber
      exact absurd hnumber (by simp)
    · exact hold
  refine ⟨?_, ?_, ?_, ?_, ?_⟩
  · intro path d hd
    rcases hd.of_insert with ⟨rfl, rfl⟩ | hold
    · exact .inl ⟨hroot, hmark⟩
    · exact .inr (h.under path d hold).2
  · intro path d hd number hnumber start hstart
    have htracked := h.around path d (hmarked path d number hd hnumber) number hnumber start hstart
    refine htracked.imp_right ?_
    rintro ⟨outer, houter | ⟨path', houter⟩, hstarts, hbelongs⟩
    · rw [List.mem_singleton.1 houter, hmark] at hstarts
      exact absurd hstarts (by simp)
    · rw [(h.under path' outer houter).1] at hbelongs
      exact ⟨path', outer, houter.insert hnew, hstarts, hbelongs⟩
  · intro path d path' d' hd hd' number hnumber hnumber'
    exact h.unique path d path' d' (hmarked path d number hd hnumber)
      (hmarked path' d' number hd' hnumber') (hnumber.trans hnumber'.symm)
  · exact fun path d hd => h.placed d (hknown path d hd)
  · intro f hf herror
    refine (h.blamed f hf herror).imp_right fun hblames origin horigin start hstart path d hd => ?_
    exact (hblames origin horigin start hstart).2 d (hknown path d hd)

/-- What is known while a text is read is known when it has been settled. -/
theorem Reader.Tracked.settled {lines : List (List Token)} {faults : List Finding}
    {label : String} {bound : Nat} {r : Reader} (h : r.Tracked lines faults label bound)
    (hlength : r.work.opened.length = 1) :
    Settled lines faults (namespaceOf label) r.settle.work.forest r.findings := by
  obtain ⟨root, hroot⟩ := List.length_eq_one_iff.1 hlength
  unfold Reader.Tracked at h
  rw [hroot] at h
  have hsettle : r.settle.work.forest = r.work.forest.insert root.path root := by
    unfold Reader.settle
    rw [hroot]
  rw [hsettle]
  exact h.settled

namespace Settled

variable {lines : List (List Token)} {faults : List Finding} {space : String} {forest : Forest}
  {findings : List Finding} {s : Surroundings} {path : String} {d : Definition}

/-- The definitions of a text have different paths inside it. -/
theorem eq_of_relativeTo_eq (h : Settled lines faults space forest findings) {path' : String}
    {d' : Definition} (hd : Closed space forest path d) (hd' : Closed space forest path' d')
    (heq : Scope.relativeTo space path = Scope.relativeTo space path') : path = path' := by
  rcases h.under path d hd with ⟨rfl, -⟩ | ⟨hunder, -⟩ <;>
    rcases h.under path' d' hd' with ⟨rfl, -⟩ | ⟨hunder', -⟩
  · rfl
  · rw [Scope.relativeTo_self] at heq
    exact absurd heq.symm (Scope.relativeTo_ne_empty hunder')
  · rw [Scope.relativeTo_self] at heq
    exact absurd heq (Scope.relativeTo_ne_empty hunder)
  · exact Scope.eq_of_relativeTo_eq hunder hunder' heq

/-- A definition in which an error is found, before or in resolution, is in error afterwards. -/
theorem hasErrors_of_errors (h : Settled lines faults space forest findings)
    (hd : Closed space forest path d) (herrors : 0 < d.errors) :
    Library.hasErrors ((Loading.extracted forest space).resolve s).1
      (Scope.relativeTo space path) = true := by
  have hextracted := Loading.extracted_of_closed hd
    fun _ _ hother heq => h.eq_of_relativeTo_eq hother hd heq
  obtain ⟨defs, hget, -⟩ := Forest.exists_resolved (s := s) hextracted
  unfold Library.hasErrors
  rw [hget]
  exact decide_eq_true (Nat.lt_of_lt_of_le herrors (Nat.le_add_right _ _))

/-- All definitions that begin on a line are in error if an error has been found in the body of the
sub-circuit that begins there, be it by the lines of the text or in resolution. -/
theorem hasErrors_of_mem (h : Settled lines faults space forest findings) {f : Finding}
    (hf : f ∈ findings ++ ((Loading.extracted forest space).resolve s).2)
    (herror : f.isError = true) (hfault : f ∉ faults) {origin : Origin}
    (horigin : f.origin = some origin) {start : Nat} (hstart : InBody lines start origin.line)
    (hd : Closed space forest path d) (hmark : d.mark space = some start) :
    Library.hasErrors ((Loading.extracted forest space).resolve s).1
      (Scope.relativeTo space path) = true := by
  rcases List.mem_append.1 hf with hf | hf
  · have hblames := (h.blamed f hf herror).resolve_left hfault
    exact h.hasErrors_of_errors hd (hblames origin horigin start hstart path d hd hmark)
  · -- the error has been found in the only definition that begins there
    obtain ⟨inside, e, defs, he, hmem, hget⟩ := Forest.exists_of_mem_resolve hf
    obtain ⟨place, hplace, hsame⟩ := Definition.origin_of_mem_resolve hmem
    obtain ⟨outside, e₀, hclosed, rfl, rfl⟩ := Loading.exists_of_extracted he
    obtain rfl := Option.some.inj (horigin.symm.trans hsame)
    have hhead := h.placed outside e₀ hclosed origin hplace
    have hpath := h.unique path d outside e₀ hd hclosed start hmark (hhead.symm.trans hstart.2)
    rw [hpath]
    unfold Library.hasErrors
    rw [hget]
    refine decide_eq_true (Nat.lt_of_lt_of_le ?_ (Nat.le_add_left _ _))
    exact List.countP_pos_iff.2 ⟨f, hmem, herror⟩

/-- What is added to a library are definitions of the text in which no error has been found, nor in
those around them. -/
theorem exists_of_promote (h : Settled lines faults space forest findings) {lib : Library}
    (hadded : (lib.promote ((Loading.extracted forest space).resolve s).1).circuits[path]? = some d)
    (hnew : lib.circuits[path]? = none) :
    ∃ outside d₀ place, Closed space forest outside d₀ ∧ d.origin = some place ∧
      d₀.mark space = some place.line ∧
      ∀ around outer start, Closed space forest around outer → outer.mark space = some start →
        belongsTo around outside = true →
        Library.hasErrors ((Loading.extracted forest space).resolve s).1
          (Scope.relativeTo space around) = false := by
  obtain ⟨hne, hget, hexcluded⟩ := Library.getElem?_promote hadded hnew
  obtain ⟨d₁, defs, hd₁, rfl, -⟩ := Forest.resolve_spec hget
  obtain ⟨outside, d₀, hclosed, rfl, rfl⟩ := Loading.exists_of_extracted hd₁
  obtain ⟨hunder, number, hnumber⟩ :
      Under space outside ∧ ∃ number, d₀.mark space = some number := by
    refine (h.under outside d₀ hclosed).resolve_left ?_
    rintro ⟨rfl, -⟩
    exact hne (Scope.relativeTo_self _)
  obtain ⟨place, hplace, hline⟩ := Definition.exists_origin_of_mark hnumber
  refine ⟨outside, d₀, place, hclosed, hplace, by rw [hnumber, hline], ?_⟩
  intro around outer start houter hstart hbelongs
  have haround : Under space around := by
    rcases h.under around outer houter with ⟨-, hnone⟩ | ⟨haround, -⟩
    · exact absurd (hnone.symm.trans hstart) (by simp)
    · exact haround
  have hbelongs := Scope.belongsTo_relativeTo haround hunder hbelongs
  have hinside := Scope.mem_outward_iff.2 (Scope.encloses_of_belongsTo hbelongs)
  have hclean := List.any_eq_false.1 hexcluded _ hinside
  refine Bool.eq_false_iff.2 fun herrors => hclean ?_
  rw [herrors, Bool.true_and, bne_iff_ne.2 (Scope.relativeTo_ne_empty haround), Bool.or_true]

end Settled

end FlatNet
