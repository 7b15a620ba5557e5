import FlatNet.Proofs.Library.Silenced
import FlatNet.Proofs.Reading.Outline

/-!
# To whom errors belong

An error is counted in the definition that is open when it is found.  While a library text is read,
the sub-circuits that are open are those of the outline, so an error in a line is counted in the
sub-circuit that the line belongs to; and a sub-circuit that has been closed still has around it
what was around it in the text, unless that has been dropped for its name.  `Tracks` says this of
the definitions at hand, `tracked_readLine` that a line keeps it up.
-/

set_option autoImplicit false

namespace FlatNet

open Loading (belongsTo belongsTo_iff belongsTo_self namespaceOf namespaceOf_ne_empty AllOrNone)
open Outline (openOn InOrder)

/-- The number of the line on which a sub-circuit of the text with the namespace begins. -/
def Definition.mark (space : String) (d : Definition) : Option Nat :=
  if d.path = space then none else d.origin.map Origin.line

/-- The places where something may be found wrong when the definition is resolved. -/
def Definition.places (d : Definition) : List Origin :=
  d.elements.values.map Element.origin ++ d.models.values.map ModelCard.origin

/-- The mark of a definition depends on its path and its origin alone. -/
theorem Definition.mark_congr {space : String} {d d' : Definition} (hpath : d'.path = d.path)
    (horigin : d'.origin = d.origin) : d'.mark space = d.mark space := by
  unfold mark
  rw [hpath, horigin]

/-- The text itself, which has the namespace as its path, has no mark. -/
theorem Definition.mark_of_path_eq {space : String} {d : Definition} (h : d.path = space) :
    d.mark space = none := if_pos h

/-- A marked definition has an origin, on the line of the mark. -/
theorem Definition.exists_origin_of_mark {space : String} {d : Definition} {number : Nat}
    (h : d.mark space = some number) : ∃ origin, d.origin = some origin ∧ origin.line = number := by
  unfold mark at h
  split at h
  · exact absurd h (by simp)
  · exact Option.map_eq_some_iff.1 h

namespace Scope

/-- The path is one of a sub-circuit of the text with the namespace. -/
def Under (space path : String) : Prop :=
  ∃ name : List Char, name ≠ [] ∧ path.toList = space.toList ++ '/' :: name

/-- A sub-circuit of a text belongs to the namespace of the text. -/
theorem Under.belongsTo {space path : String} (h : Under space path) :
    belongsTo space path = true := by
  obtain ⟨name, -, hname⟩ := h
  exact belongsTo_iff.2 (.inr ⟨name, hname⟩)

/-- A sub-circuit of a text does not have the path of the text. -/
theorem Under.ne {space path : String} (h : Under space path) : path ≠ space := by
  obtain ⟨name, -, hname⟩ := h
  rintro rfl
  exact absurd (congrArg List.length hname) (by simp)

/-- A path lies inside those around it. -/
theorem belongsTo_trans {outer path inner : String} (h : Loading.belongsTo outer path = true)
    (h' : Loading.belongsTo path inner = true) : Loading.belongsTo outer inner = true := by
  rw [belongsTo_iff] at h h' ⊢
  rcases h' with rfl | ⟨rest', hrest'⟩
  · exact h
  · rcases h with rfl | ⟨rest, hrest⟩
    · exact .inr ⟨rest', hrest'⟩
    · exact .inr ⟨rest ++ '/' :: rest', by rw [hrest', hrest, List.append_assoc]; rfl⟩

/-- A name inside a text or one of its sub-circuits gives the path of a sub-circuit of the text. -/
theorem under_child {space parent name : String} (hspace : space ≠ "")
    (h : parent = space ∨ Under space parent) (hname : name.toList ≠ []) :
    Under space (child parent name) ∧ Loading.belongsTo parent (child parent name) = true := by
  have hparent : parent ≠ "" := by
    rcases h with rfl | ⟨rest, -, hrest⟩
    · exact hspace
    · rintro rfl
      exact absurd (congrArg List.length hrest) (by simp)
  have hchild := toList_child hparent name
  refine ⟨?_, belongsTo_iff.2 (.inr ⟨_, hchild⟩)⟩
  rcases h with rfl | ⟨rest, -, hrest⟩
  · exact ⟨name.toList, hname, hchild⟩
  · refine ⟨rest ++ '/' :: name.toList, by simp, ?_⟩
    rw [hchild, hrest, List.append_assoc]
    rfl

end Scope

open Scope (Under)

/-! ## The open definitions -/

/-- The open definitions of a text: its own one last, before it its sub-circuits, each with those
around it, as in the outline of the text. -/
inductive Nest (lines : List (List Token)) (space : String) : List Definition → Prop
  | text {root : Definition} (hroot : root.path = space) : Nest lines space [root]
  | sub {d : Definition} {around : List Definition} {number : Nat}
      (haround : Nest lines space around) (hunder : Under space d.path)
      (hmark : d.mark space = some number)
      (hpaths : ∀ outer ∈ around, belongsTo outer.path d.path = true)
      (hfresh : ∀ outer ∈ around, outer.mark space ≠ some number)
      (hopen : openOn lines number = (d :: around).filterMap (Definition.mark space)) :
      Nest lines space (d :: around)

namespace Nest

variable {lines : List (List Token)} {space : String} {opened : List Definition}

/-- While a text is read, its own definition is open. -/
theorem nonempty (h : Nest lines space opened) : 0 < opened.length := by
  cases h <;> exact Nat.succ_pos _

/-- The innermost definition may be replaced by one with the same first line. -/
theorem replaceHead {d d' : Definition} {around : List Definition}
    (h : Nest lines space (d :: around))
    (hpath : d'.path = d.path) (horigin : d'.origin = d.origin) :
    Nest lines space (d' :: around) := by
  have hsame : d'.mark space = d.mark space := Definition.mark_congr hpath horigin
  cases h with
  | text hroot => exact .text (hpath.trans hroot)
  | sub haround hunder hmark hpaths hfresh hopen =>
    refine .sub haround ?_ (hsame.trans hmark) ?_ hfresh ?_
    · rwa [hpath]
    · rwa [hpath]
    · rw [hopen, List.filterMap_cons, List.filterMap_cons, hsame]

/-- The innermost sub-circuit of the outline is the innermost definition. -/
theorem head?_filterMap_mark (h : Nest lines space opened) :
    (opened.filterMap (Definition.mark space)).head? = (opened.headD default).mark space := by
  cases h with
  | text hroot =>
    rw [List.filterMap_cons_none (Definition.mark_of_path_eq hroot)]
    exact (Definition.mark_of_path_eq hroot).symm
  | sub _ _ hmark _ _ _ =>
    rw [List.filterMap_cons_some hmark]
    exact hmark.symm

/-- The innermost definition is the text itself or one of its sub-circuits. -/
theorem path_head (h : Nest lines space opened) :
    (opened.headD default).path = space ∨ Under space (opened.headD default).path := by
  cases h with
  | text hroot => exact .inl hroot
  | sub _ hunder _ _ _ _ => exact .inr hunder

/-- The innermost definition lies inside all of them. -/
theorem belongsTo_head (h : Nest lines space opened) :
    ∀ outer ∈ opened, belongsTo outer.path (opened.headD default).path = true := by
  cases h with
  | text hroot => exact List.forall_mem_singleton.2 (belongsTo_self _)
  | sub _ _ _ hpaths _ _ => exact List.forall_mem_cons.2 ⟨belongsTo_self _, hpaths⟩

/-- The text's own definition is the only one if no sub-circuit is open. -/
theorem filterMap_mark_of_length (h : Nest lines space opened) (hlength : opened.length ≤ 1) :
    opened.filterMap (Definition.mark space) = [] := by
  cases h with
  | text hroot => exact List.filterMap_cons_none (Definition.mark_of_path_eq hroot)
  | sub haround _ _ _ _ _ =>
    have hpos := haround.nonempty
    rw [List.length_cons] at hlength
    omega

/-- Of several definitions the innermost one is a sub-circuit. -/
theorem tail {d : Definition} {around : List Definition} (h : Nest lines space (d :: around))
    (hdeep : 0 < around.length) :
    Nest lines space around ∧ ∃ number, Under space d.path ∧ d.mark space = some number ∧
      (∀ outer ∈ around, belongsTo outer.path d.path = true) ∧
      (∀ outer ∈ around, outer.mark space ≠ some number) ∧
      openOn lines number = (d :: around).filterMap (Definition.mark space) := by
  cases h with
  | text _ => exact absurd hdeep (Nat.lt_irrefl 0)
  | sub haround hunder hmark hpaths hfresh hopen =>
    exact ⟨haround, _, hunder, hmark, hpaths, hfresh, hopen⟩

end Nest

/-! ## The definitions at hand -/

/-- A sub-circuit of the text with the namespace has been closed. -/
def Closed (space : String) (forest : Forest) (path : String) (d : Definition) : Prop :=
  belongsTo space path = true ∧ forest[path]? = some d

/-- A definition of the text with the namespace is open or has been closed. -/
def Known (space : String) (opened : List Definition) (forest : Forest) (d : Definition) : Prop :=
  d ∈ opened ∨ ∃ path, Closed space forest path d

/-- The sub-circuit that begins on a line has been dropped, because its path was taken. -/
def Dropped (findings : List Finding) (start : Nat) : Prop :=
  ∃ (name : String) (origin : Origin),
    Finding.usual (.duplicateSubcircuit name) (some origin) ∈ findings ∧ origin.line = start

/-- An error has been counted in the sub-circuit to whose body its place belongs, if that is at
hand; the sub-circuit begins before the given line. -/
def Blames (lines : List (List Token)) (space : String) (bound : Nat) (opened : List Definition)
    (forest : Forest) (f : Finding) : Prop :=
  ∀ origin, f.origin = some origin → ∀ start, InBody lines start origin.line →
    start < bound ∧
      ∀ d, Known space opened forest d → d.mark space = some start → 0 < d.errors

/-- What is known of the definitions of a text, when the lines before a given one have been read and
the findings reported, faults of tokens among them. -/
structure Tracks (lines : List (List Token)) (faults : List Finding) (space : String)
    (bound : Nat) (opened : List Definition) (forest : Forest) (findings : List Finding) :
    Prop where
  nest : Nest lines space opened
  under : ∀ path d, Closed space forest path d →
    d.path = path ∧ Under space path ∧ ∃ number, d.mark space = some number
  /-- What was around a sub-circuit is at hand, or it has been dropped. -/
  around : ∀ path d, Closed space forest path d → ∀ number, d.mark space = some number →
    ∀ start ∈ openOn lines number, Dropped findings start ∨
      ∃ outer, Known space opened forest outer ∧ outer.mark space = some start ∧
        belongsTo outer.path path = true
  apart : ∀ path d, Closed space forest path d → ∀ e ∈ opened, e.mark space ≠ d.mark space
  unique : ∀ path d path' d', Closed space forest path d → Closed space forest path' d' →
    d.mark space = d'.mark space → path = path'
  placed : ∀ d, Known space opened forest d → ∀ origin ∈ d.places,
    (openOn lines origin.line).head? = d.mark space
  early : ∀ d, Known space opened forest d → ∀ number, d.mark space = some number →
    number < bound
  blamed : ∀ f ∈ findings, f.isError = true →
    f ∈ faults ∨ Blames lines space bound opened forest f

/-- What has been dropped stays dropped when more is reported. -/
theorem Dropped.mono {findings findings' : List Finding} {start : Nat} (h : Dropped findings start)
    (hsub : findings ⊆ findings') : Dropped findings' start := by
  obtain ⟨name, origin, hmem, hline⟩ := h
  exact ⟨name, origin, hsub hmem, hline⟩

section Known

variable {lines : List (List Token)} {space : String} {bound bound' : Nat}
  {opened opened' : List Definition} {forest forest' : Forest} {d e : Definition}

/-- What is blamed stays blamed if every definition at hand was at hand before, with no more errors,
or begins behind. -/
theorem Blames.of_known {f : Finding} (h : Blames lines space bound opened forest f)
    (hle : bound ≤ bound')
    (hknown : ∀ e, Known space opened' forest' e → ∀ start < bound, e.mark space = some start →
      ∃ e', Known space opened forest e' ∧ e'.mark space = some start ∧ e'.errors ≤ e.errors) :
    Blames lines space bound' opened' forest' f := by
  intro origin horigin start hstart
  obtain ⟨hlt, hcounted⟩ := h origin horigin start hstart
  refine ⟨Nat.lt_of_lt_of_le hlt hle, fun e he hmark => ?_⟩
  obtain ⟨e', he', hmark', herrors⟩ := hknown e he start hlt hmark
  exact Nat.lt_of_lt_of_le (hcounted e' he' hmark') herrors

/-- What is blamed stays blamed if there are no new definitions at hand. -/
theorem Blames.mono {f : Finding} (h : Blames lines space bound opened forest f)
    (hle : bound ≤ bound')
    (hknown : ∀ e, Known space opened' forest' e → Known space opened forest e) :
    Blames lines space bound' opened' forest' f :=
  h.of_known hle fun e he _ _ hmark => ⟨e, hknown e he, hmark, Nat.le_refl _⟩

/-- A known definition is the innermost one or known without it. -/
theorem Known.of_cons (h : Known space (d :: opened) forest e) :
    e = d ∨ Known space opened forest e := by
  rcases h with he | hclosed
  · exact (List.mem_cons.1 he).imp_right .inl
  · exact .inr (.inr hclosed)

/-! ### A sub-circuit is moved to the forest -/

/-- What has been closed behind an insertion is what was inserted or had been closed before. -/
theorem Closed.of_insert {path : String} (h : Closed space (forest.insert d.path d) path e) :
    path = d.path ∧ e = d ∨ Closed space forest path e :=
  (NameMap.getElem?_of_insert h.2).imp_right fun hold => ⟨h.1, hold⟩

/-- What has been closed stays so when a definition is put at a free path. -/
theorem Closed.insert {path : String} (h : Closed space forest path e)
    (hnew : forest[d.path]? = none) : Closed space (forest.insert d.path d) path e := by
  refine ⟨h.1, ?_⟩
  rw [Std.ExtTreeMap.getElem?_insert, if_neg]
  · exact h.2
  · intro heq
    rw [Std.LawfulEqCmp.compare_eq_iff_eq.1 heq, h.2] at hnew
    exact absurd hnew (by simp)

/-- A definition that is known when another one has been closed was known while that one was
open. -/
theorem Known.of_insert (h : Known space opened (forest.insert d.path d) e) :
    Known space (d :: opened) forest e := by
  rcases h with he | ⟨path, he⟩
  · exact .inl (List.mem_cons_of_mem d he)
  · rcases he.of_insert with ⟨-, rfl⟩ | he
    · exact .inl List.mem_cons_self
    · exact .inr ⟨path, he⟩

/-- A known definition stays known when the innermost one is closed at a free path. -/
theorem Known.insert (h : Known space (d :: opened) forest e) (hunder : Under space d.path)
    (hnew : forest[d.path]? = none) : Known space opened (forest.insert d.path d) e := by
  rcases h with he | ⟨path, he⟩
  · rcases List.mem_cons.1 he with rfl | he
    · exact .inr ⟨_, hunder.belongsTo, Std.ExtTreeMap.getElem?_insert_self⟩
    · exact .inl he
  · exact .inr ⟨path, he.insert hnew⟩

end Known

namespace Tracks

variable {lines : List (List Token)} {faults : List Finding} {space : String} {bound : Nat}
  {opened : List Definition} {forest : Forest} {findings : List Finding}

/-- What is known of the lines before one holds of the lines before a later one. -/
theorem mono (h : Tracks lines faults space bound opened forest findings) {bound' : Nat}
    (hle : bound ≤ bound') : Tracks lines faults space bound' opened forest findings :=
  { h with
    early := fun d hd number hnumber => Nat.lt_of_lt_of_le (h.early d hd number hnumber) hle
    blamed := fun f hf herror =>
      (h.blamed f hf herror).imp_right fun hblames => hblames.mono hle fun _ he => he }

/-- Only the innermost definition begins where it begins. -/
theorem eq_of_mark_eq {d : Definition} {around : List Definition}
    (h : Tracks lines faults space bound (d :: around) forest findings) {start : Nat}
    (hstart : d.mark space = some start) {e : Definition}
    (he : Known space (d :: around) forest e) (hmark : e.mark space = some start) : e = d := by
  rcases he with he | ⟨path, hclosed⟩
  · rcases List.mem_cons.1 he with rfl | he
    · rfl
    · cases h.nest with
      | text _ => exact absurd he List.not_mem_nil
      | sub _ _ hmark' _ hfresh _ =>
        obtain rfl := Option.some.inj (hmark'.symm.trans hstart)
        exact absurd hmark (hfresh e he)
  · exact absurd (hstart.trans hmark.symm) (h.apart path e hclosed d List.mem_cons_self)

/-! ### Steps -/

/-- Something is changed in the innermost definition. -/
theorem replaceHead {d d' : Definition} {around : List Definition}
    (h : Tracks lines faults space bound (d :: around) forest findings) (hpath : d'.path = d.path)
    (horigin : d'.origin = d.origin) (herrors : d.errors ≤ d'.errors)
    (hplaces : ∀ origin ∈ d'.places,
      origin ∈ d.places ∨ (openOn lines origin.line).head? = d.mark space) :
    Tracks lines faults space bound (d' :: around) forest findings := by
  have hsame : d'.mark space = d.mark space := Definition.mark_congr hpath horigin
  have hd : Known space (d :: around) forest d := .inl List.mem_cons_self
  -- the definitions at hand are those from before, but for the innermost one
  have hknown : ∀ e, Known space (d' :: around) forest e →
      e = d' ∨ Known space (d :: around) forest e := by
    rintro e (he | hclosed)
    · exact (List.mem_cons.1 he).imp_right fun he => .inl (List.mem_cons_of_mem d he)
    · exact .inr (.inr hclosed)
  refine ⟨h.nest.replaceHead hpath horigin, h.under, ?_, ?_, h.unique, ?_, ?_, ?_⟩
  · intro path e hclosed number hnumber start hstart
    refine (h.around path e hclosed number hnumber start hstart).imp_right ?_
    rintro ⟨outer, houter | houter, hmark, hbelongs⟩
    · rcases List.mem_cons.1 houter with rfl | houter
      · exact ⟨d', .inl List.mem_cons_self, hsame.trans hmark, by rwa [hpath]⟩
      · exact ⟨outer, .inl (List.mem_cons_of_mem d' houter), hmark, hbelongs⟩
    · exact ⟨outer, .inr houter, hmark, hbelongs⟩
  · intro path e hclosed
    obtain ⟨hfirst, hrest⟩ := List.forall_mem_cons.1 (h.apart path e hclosed)
    exact List.forall_mem_cons.2 ⟨by rwa [hsame], hrest⟩
  · intro e he origin hplace
    rcases hknown e he with rfl | he
    · rw [hsame]
      exact (hplaces origin hplace).elim (h.placed d hd origin) id
    · exact h.placed e he origin hplace
  · intro e he number hnumber
    rcases hknown e he with rfl | he
    · exact h.early d hd number (hsame.symm.trans hnumber)
    · exact h.early e he number hnumber
  · intro f hf herror
    refine (h.blamed f hf herror).imp_right fun hblames =>
      hblames.of_known (Nat.le_refl _) fun e he start _ hmark => ?_
    rcases hknown e he with rfl | he
    · exact ⟨d, hd, hsame.symm.trans hmark, herrors⟩
    · exact ⟨e, he, hmark, Nat.le_refl _⟩

/-- Something is reported for which the right sub-circuit is to blame, or a fault of a token. -/
theorem found (h : Tracks lines faults space bound opened forest findings) {f : Finding}
    (hf : f.isError = true → f ∈ faults ∨ Blames lines space bound opened forest f) :
    Tracks lines faults space bound opened forest (findings ++ [f]) := by
  have hsub : findings ⊆ findings ++ [f] := List.subset_append_left _ _
  refine { h with around := ?_, blamed := ?_ }
  · intro path d hclosed number hnumber start hstart
    exact (h.around path d hclosed number hnumber start hstart).imp_left (·.mono hsub)
  · exact List.forall_mem_append.2 ⟨h.blamed, List.forall_mem_singleton.2 hf⟩

/-- A sub-circuit is opened. -/
theorem opens (h : Tracks lines faults space bound opened forest findings) {d : Definition}
    {number : Nat} (hbound : bound ≤ number) (hunder : Under space d.path)
    (hmark : d.mark space = some number)
    (hpaths : ∀ outer ∈ opened, belongsTo outer.path d.path = true)
    (hopen : openOn lines number = (d :: opened).filterMap (Definition.mark space))
    (hplaces : d.places = []) :
    Tracks lines faults space (number + 1) (d :: opened) forest findings := by
  have hold : ∀ e, Known space opened forest e → e.mark space ≠ some number := by
    intro e he heq
    have hlt := h.early e he number heq
    omega
  have hlater := h.mono (Nat.le_succ_of_le hbound)
  refine ⟨.sub h.nest hunder hmark hpaths (fun outer houter => hold outer (.inl houter)) hopen,
    h.under, ?_, ?_, h.unique, ?_, ?_, ?_⟩
  · intro path e hclosed number hnumber start hstart
    refine (h.around path e hclosed number hnumber start hstart).imp_right ?_
    rintro ⟨outer, houter, hmark, hbelongs⟩
    exact ⟨outer, houter.imp_left (List.mem_cons_of_mem d), hmark, hbelongs⟩
  · intro path e hclosed
    refine List.forall_mem_cons.2 ⟨?_, h.apart path e hclosed⟩
    rw [hmark]
    exact (hold e (.inr ⟨path, hclosed⟩)).symm
  · intro e he origin hplace
    rcases he.of_cons with rfl | he
    · rw [hplaces] at hplace
      exact absurd hplace List.not_mem_nil
    · exact h.placed e he origin hplace
  · intro e he number' hnumber'
    rcases he.of_cons with rfl | he
    · obtain rfl := Option.some.inj (hmark.symm.trans hnumber')
      exact Nat.lt_succ_self _
    · exact hlater.early e he number' hnumber'
  · intro f hf herror
    refine (h.blamed f hf herror).imp_right fun hblames =>
      hblames.of_known (Nat.le_succ_of_le hbound) fun e he start hlt hstarts => ?_
    rcases he.of_cons with rfl | he
    · -- the new sub-circuit begins behind what has been blamed
      obtain rfl := Option.some.inj (hmark.symm.trans hstarts)
      omega
    · exact ⟨e, he, hstarts, Nat.le_refl _⟩

section Close

variable {d : Definition} {around : List Definition}

/-- The innermost sub-circuit is closed and added to the forest. -/
theorem keep (h : Tracks lines faults space bound (d :: around) forest findings)
    (hdeep : 0 < around.length) (hnew : forest[d.path]? = none) :
    Tracks lines faults space bound around (forest.insert d.path d) findings := by
  obtain ⟨haround, number, hunder, hmark, hpaths, hfresh, hopen⟩ := h.nest.tail hdeep
  refine ⟨haround, ?_, ?_, ?_, ?_, fun e he => h.placed e he.of_insert,
    fun e he => h.early e he.of_insert, ?_⟩
  · intro path e he
    rcases he.of_insert with ⟨rfl, rfl⟩ | he
    · exact ⟨rfl, hunder, number, hmark⟩
    · exact h.under path e he
  · intro path e he number' hnumber' start hstart
    rcases he.of_insert with ⟨rfl, rfl⟩ | he
    · -- what is around the sub-circuit is still open
      obtain rfl := Option.some.inj (hmark.symm.trans hnumber')
      rw [hopen] at hstart
      obtain ⟨outer, houter, hstarts⟩ := List.mem_filterMap.1 hstart
      refine .inr ⟨outer, Known.insert (.inl houter) hunder hnew, hstarts, ?_⟩
      rcases List.mem_cons.1 houter with rfl | houter
      · exact belongsTo_self _
      · exact hpaths outer houter
    · refine (h.around path e he number' hnumber' start hstart).imp_right ?_
      rintro ⟨outer, houter, hstarts, hbelongs⟩
      exact ⟨outer, houter.insert hunder hnew, hstarts, hbelongs⟩
  · intro path e he outer houter
    rcases he.of_insert with ⟨-, rfl⟩ | he
    · rw [hmark]
      exact hfresh outer houter
    · exact h.apart path e he outer (List.mem_cons_of_mem d houter)
  · intro path e path' e' he he' hsame
    rcases he.of_insert with ⟨rfl, rfl⟩ | hold <;> rcases he'.of_insert with ⟨rfl, rfl⟩ | hold'
    · rfl
    · exact absurd hsame (h.apart path' e' hold' e List.mem_cons_self)
    · exact absurd hsame.symm (h.apart path e hold e' List.mem_cons_self)
    · exact h.unique path e path' e' hold hold' hsame
  · exact fun f hf herror => (h.blamed f hf herror).imp_right fun hblames =>
      hblames.mono (Nat.le_refl _) fun e he => he.of_insert

/-- Where a sub-circuit begins is no place in a body. -/
theorem not_inBody_of_mark (h : Tracks lines faults space bound (d :: around) forest findings)
    (hdeep : 0 < around.length) {origin : Origin} (horigin : d.origin = some origin)
    (start : Nat) : ¬InBody lines start origin.line := by
  obtain ⟨-, number, -, hmark, -, -, hopen⟩ := h.nest.tail hdeep
  obtain ⟨place, hplace, rfl⟩ := Definition.exists_origin_of_mark hmark
  obtain rfl := Option.some.inj (horigin.symm.trans hplace)
  rintro ⟨hlt, hhead⟩
  rw [hopen, List.filterMap_cons_some hmark] at hhead
  obtain rfl := Option.some.inj hhead
  exact absurd hlt (Nat.lt_irrefl _)

/-- The innermost sub-circuit is dropped, which is reported. -/
theorem drop (h : Tracks lines faults space bound (d :: around) forest findings)
    (hdeep : 0 < around.length) :
    Tracks lines faults space bound around forest
      (findings ++ [.usual (.duplicateSubcircuit d.name) d.origin]) := by
  obtain ⟨haround, number, -, hmark, -, -, -⟩ := h.nest.tail hdeep
  obtain ⟨origin, horigin, rfl⟩ := Definition.exists_origin_of_mark hmark
  have hknown : ∀ e, Known space around forest e → Known space (d :: around) forest e :=
    fun e he => he.imp_left (List.mem_cons_of_mem d)
  have hsub : findings ⊆ findings ++ [.usual (.duplicateSubcircuit d.name) d.origin] :=
    List.subset_append_left _ _
  refine ⟨haround, h.under, ?_, ?_, h.unique, fun e he => h.placed e (hknown e he),
    fun e he => h.early e (hknown e he), ?_⟩
  · intro path e he number' hnumber' start hstart
    rcases h.around path e he number' hnumber' start hstart with
      hdropped | ⟨outer, houter, hstarts, hbelongs⟩
    · exact .inl (hdropped.mono hsub)
    · rcases houter with houter | houter
      · rcases List.mem_cons.1 houter with rfl | houter
        · refine .inl ⟨outer.name, origin, ?_, Option.some.inj (hmark.symm.trans hstarts)⟩
          rw [horigin]
          exact List.mem_append_right _ (List.mem_singleton_self _)
        · exact .inr ⟨outer, .inl houter, hstarts, hbelongs⟩
      · exact .inr ⟨outer, .inr houter, hstarts, hbelongs⟩
  · exact fun path e he outer houter => h.apart path e he outer (List.mem_cons_of_mem d houter)
  · refine List.forall_mem_append.2 ⟨fun f hf herror => ?_, List.forall_mem_singleton.2 fun _ => ?_⟩
    · exact (h.blamed f hf herror).imp_right fun hblames => hblames.mono (Nat.le_refl _) hknown
    · refine .inr fun origin' horigin' start hstart => ?_
      exact absurd hstart (h.not_inBody_of_mark hdeep horigin' start)

end Close

/-- A library is loaded: of the closed sub-circuits all have stayed or none. -/
theorem load (h : Tracks lines faults space bound opened forest findings) {forest' : Forest}
    (hforest : (∀ path : String, belongsTo space path = true → forest'[path]? = forest[path]?) ∨
      ∀ path : String, belongsTo space path = true → forest'[path]? = none) :
    Tracks lines faults space bound opened forest' findings := by
  rcases hforest with hsame | hnone
  · have hclosed : ∀ path d, Closed space forest' path d ↔ Closed space forest path d := by
      intro path d
      refine and_congr_right fun hbelongs => ?_
      rw [hsame path hbelongs]
    have hknown : ∀ d, Known space opened forest' d ↔ Known space opened forest d :=
      fun d => or_congr_right (exists_congr fun path => hclosed path d)
    obtain ⟨nest, under, around, apart, unique, placed, early, blamed⟩ := h
    unfold Blames at blamed
    simp only [← hclosed, ← hknown] at under around apart unique placed early blamed
    exact ⟨nest, under, around, apart, unique, placed, early, blamed⟩
  · have hclosed : ∀ path d, ¬Closed space forest' path d := by
      rintro path d ⟨hbelongs, hd⟩
      rw [hnone path hbelongs] at hd
      exact absurd hd (by simp)
    have hknown : ∀ d, Known space opened forest' d → Known space opened forest d := by
      rintro d (hd | ⟨path, hd⟩)
      · exact .inl hd
      · exact absurd hd (hclosed path d)
    refine ⟨h.nest, fun path d hd => absurd hd (hclosed path d),
      fun path d hd => absurd hd (hclosed path d), fun path d hd => absurd hd (hclosed path d),
      fun path d _ _ hd => absurd hd (hclosed path d), fun d hd => h.placed d (hknown d hd),
      fun d hd => h.early d (hknown d hd), fun f hf herror => ?_⟩
    exact (h.blamed f hf herror).imp_right fun hblames => hblames.mono (Nat.le_refl _) hknown

/-- The places of bodies of which the innermost definition is the one to blame. -/
def Charges (lines : List (List Token)) (space : String) (bound : Nat) (opened : List Definition)
    (forest : Forest) (f : Finding) : Prop :=
  ∀ origin, f.origin = some origin → ∀ start, InBody lines start origin.line →
    (opened.headD default).mark space = some start ∨
      start < bound ∧ ∀ d, Known space opened forest d → d.mark space ≠ some start

/-- An error is reported and counted in the innermost definition. -/
theorem count {d : Definition} {around : List Definition}
    (h : Tracks lines faults space bound (d :: around) forest findings) {f : Finding}
    (hf : f ∈ faults ∨ Charges lines space bound (d :: around) forest f) :
    Tracks lines faults space bound (Reader.countError d :: around) forest (findings ++ [f]) := by
  have hcounted : Tracks lines faults space bound (Reader.countError d :: around) forest findings :=
    h.replaceHead rfl rfl (Nat.le_succ _) fun origin horigin => .inl horigin
  have hsame : (Reader.countError d).mark space = d.mark space := Definition.mark_congr rfl rfl
  refine hcounted.found fun _ => hf.imp_right fun hf origin horigin start hstart => ?_
  rcases hf origin horigin start hstart with hmark | ⟨hlt, hnone⟩
  · have hmark : d.mark space = some start := hmark
    refine ⟨h.early d (.inl List.mem_cons_self) start hmark, fun e he hstarts => ?_⟩
    rw [hcounted.eq_of_mark_eq (hsame.trans hmark) he hstarts]
    exact Nat.succ_pos _
  · refine ⟨hlt, fun e he hstarts => ?_⟩
    rcases he with he | hclosed
    · rcases List.mem_cons.1 he with rfl | he
      · exact absurd (hsame.symm.trans hstarts) (hnone d (.inl List.mem_cons_self))
      · exact absurd hstarts (hnone e (.inl (List.mem_cons_of_mem d he)))
    · exact absurd hstarts (hnone e (.inr hclosed))

end Tracks

namespace Reader

open Line (originOf HasPlace IsAt findingAt)
open Tracks (Charges)

/-- What is known of the definitions at hand while a library text is read. -/
def Tracked (lines : List (List Token)) (faults : List Finding) (label : String) (bound : Nat)
    (r : Reader) : Prop :=
  Tracks lines faults (namespaceOf label) bound r.work.opened r.work.forest r.findings

/-- The sub-circuits that are open, by the lines on which they begin. -/
def marks (label : String) (r : Reader) : List Nat :=
  r.work.opened.filterMap (Definition.mark (namespaceOf label))

/-- The reader is where the outline is: the sub-circuits of the outline are those that are open, and
inside them some that have been rejected. -/
structure Follows (label : String) (o : Outline) (r : Reader) : Prop where
  ended : r.ended = o.ended
  opened : r.ended = false →
    ∃ rejected, rejected.length = r.skipDepth ∧ o.opened = rejected ++ r.marks label

/-- The same sub-circuits are open or rejected. -/
structure Steady (label : String) (r r' : Reader) : Prop where
  marks : r'.marks label = r.marks label
  skipDepth : r'.skipDepth = r.skipDepth
  ended : r'.ended = r.ended

variable {lines : List (List Token)} {faults : List Finding} {label : String} {bound : Nat}
  {r : Reader} {src : Source} {load : Loader} {disk : Disk}

namespace Tracked

/-- What is known while a text is read up to a line is known up to every later line. -/
theorem mono (h : r.Tracked lines faults label bound) {bound' : Nat} (hle : bound ≤ bound') :
    r.Tracked lines faults label bound' := Tracks.mono h hle

/-- A definition is open as long as a text is tracked. -/
theorem exists_opened_eq (h : r.Tracked lines faults label bound) :
    ∃ d around, r.work.opened = d :: around :=
  List.exists_cons_of_length_pos h.nest.nonempty

/-- Tracking goes on behind a finding that is a fault of a token, or that charges the innermost
definition. -/
theorem report (h : r.Tracked lines faults label bound) {f : Finding}
    (hf : f.isError = true → f ∈ faults ∨
      Charges lines (namespaceOf label) bound r.work.opened r.work.forest f) :
    (r.report f).Tracked lines faults label bound := by
  have hfindings := findings_report r f
  obtain ⟨d, around, hopened⟩ := h.exists_opened_eq
  unfold Tracked at h ⊢
  rw [hfindings, report_eq]
  rw [hopened] at h hf ⊢
  cases herror : f.isError with
  | false =>
    refine h.found fun htrue => ?_
    rw [herror] at htrue
    exact absurd htrue (by simp)
  | true => exact h.count (hf herror)

/-- Tracking goes on behind a change that a line makes to the innermost definition, if the line is
in its body. -/
theorem modifyCurrent (h : r.Tracked lines faults label bound) {line : List Token}
    {g : Definition → Definition} (hg : Mild src.file line g)
    (hplace : ∀ t ∈ line, openOn lines t.line = r.marks label) :
    (r.modifyCurrent g).Tracked lines faults label bound := by
  have hhead : ∀ origin, HasPlace src.file line origin →
      (openOn lines origin.line).head? = r.current.mark (namespaceOf label) := by
    rintro origin ⟨t, ht, rfl⟩
    exact (congrArg List.head? (hplace t ht)).trans h.nest.head?_filterMap_mark
  have hfindings := findings_modifyCurrent r g
  obtain ⟨d, around, hopened⟩ := h.exists_opened_eq
  unfold Tracked at h ⊢
  unfold Reader.current at hhead
  rw [hfindings, modifyCurrent_eq]
  rw [hopened] at h hhead ⊢
  refine h.replaceHead (hg.path d) (hg.origin d) (Nat.le_of_eq (hg.errors d).symm) ?_
  intro origin horigin
  rcases List.mem_append.1 horigin with horigin | horigin
  · obtain ⟨e, he, rfl⟩ := List.mem_map.1 horigin
    rcases hg.elements d e he with hold | ⟨-, hnew⟩
    · exact .inl (List.mem_append_left _ (List.mem_map_of_mem hold))
    · exact .inr (hhead _ hnew)
  · obtain ⟨card, hcard, rfl⟩ := List.mem_map.1 horigin
    rcases hg.models d card hcard with hold | hnew
    · exact .inl (List.mem_append_right _ (List.mem_map_of_mem hold))
    · exact .inr (hhead _ hnew)

/-- Tracking goes on when the innermost definition is closed, or dropped because its path is
taken. -/
theorem close (h : r.Tracked lines faults label bound) (hdeep : 1 < r.work.opened.length) :
    r.close.Tracked lines faults label bound := by
  obtain ⟨d, around, hopened⟩ := h.exists_opened_eq
  have haround : 0 < around.length := by
    rw [hopened] at hdeep
    exact Nat.lt_of_succ_lt_succ hdeep
  have hstart : Tracks lines faults (namespaceOf label) bound (d :: around) r.work.forest
      r.findings := hopened ▸ h
  cases hcontains : r.work.forest.contains d.path with
  | true =>
    have hdropped := hstart.drop haround
    rw [close_of_contains hopened hcontains]
    unfold Tracked
    rw [findings_report, report_eq]
    obtain ⟨outer, rest, rfl⟩ := List.exists_cons_of_length_pos haround
    exact hdropped.replaceHead rfl rfl (Nat.le_succ _) fun origin horigin => .inl horigin
  | false =>
    have hkept := hstart.keep haround (NameMap.contains_eq_false_iff.1 hcontains)
    rw [close_of_not_contains hopened hcontains]
    unfold Tracked
    rw [findings_modifyCurrent, modifyCurrent_eq]
    obtain ⟨outer, rest, rfl⟩ := List.exists_cons_of_length_pos haround
    exact hkept.replaceHead rfl rfl (Nat.le_refl _) fun origin horigin => .inl horigin

/-- Tracking goes on behind a library that is named in the body of the innermost definition. -/
theorem loaded (h : r.Tracked lines faults label bound) (hload : load.Frames disk) {t : Token}
    (hplace : openOn lines t.line = r.marks label) :
    (r.loaded src load.silenced t).Tracked lines faults label bound := by
  have hwhole := (hload.frame src.libraryKind t.text r.work).whole label fun _ hfalse => hfalse.elim
  have hopened := hload.opened src.libraryKind t.text r.work
  have hwork : Reader.Tracked lines faults label bound
      { r with work := (load.silenced src.libraryKind t.text r.work).1 } := by
    have hloaded := h.load hwhole
    unfold Tracked
    show Tracks lines faults (namespaceOf label) bound
      (load src.libraryKind t.text r.work).1.opened _ _
    rw [hopened]
    exact hloaded
  rw [loaded_eq]
  cases (load.silenced src.libraryKind t.text r.work).2 with
  | none => exact hwork
  | some problem =>
    refine hwork.report fun _ => .inr fun origin horigin start hstart => .inl ?_
    obtain rfl := Option.some.inj horigin
    have hmarks : openOn lines t.line =
        (load src.libraryKind t.text r.work).1.opened.filterMap
          (Definition.mark (namespaceOf label)) := by
      rw [hopened]
      exact hplace
    exact (hwork.nest.head?_filterMap_mark.symm.trans
      (congrArg List.head? hmarks.symm)).trans hstart.2

end Tracked

/-- Changes that keep path and origin keep the marks of the open definitions. -/
theorem filterMap_mark_modifyHead {space : String} {g : Definition → Definition}
    (hpath : ∀ d, (g d).path = d.path) (horigin : ∀ d, (g d).origin = d.origin)
    (opened : List Definition) :
    (opened.modifyHead g).filterMap (Definition.mark space) =
      opened.filterMap (Definition.mark space) := by
  cases opened with
  | nil => rfl
  | cons d around =>
    rw [List.modifyHead_cons, List.filterMap_cons, List.filterMap_cons,
      Definition.mark_congr (hpath d) (horigin d)]

namespace Steady

variable {r' r'' : Reader}

/-- What stays twice stays. -/
theorem trans (h : Steady label r r') (h' : Steady label r' r'') : Steady label r r'' :=
  ⟨h'.marks.trans h.marks, h'.skipDepth.trans h.skipDepth, h'.ended.trans h.ended⟩

/-- A finding opens and rejects nothing. -/
theorem report (label : String) (r : Reader) (f : Finding) : Steady label r (r.report f) := by
  rw [report_eq]
  refine ⟨?_, rfl, rfl⟩
  unfold Reader.marks
  dsimp only
  split
  · exact filterMap_mark_modifyHead (g := countError) (fun _ => rfl) (fun _ => rfl) _
  · rfl

/-- A change that keeps path and origin opens and rejects nothing. -/
theorem modifyCurrent (label : String) (r : Reader) {g : Definition → Definition}
    (hpath : ∀ d, (g d).path = d.path) (horigin : ∀ d, (g d).origin = d.origin) :
    Steady label r (r.modifyCurrent g) := by
  rw [modifyCurrent_eq]
  exact ⟨filterMap_mark_modifyHead hpath horigin _, rfl, rfl⟩

/-- Loading a library leaves the open sub-circuits of the text as they are. -/
theorem loaded (hload : load.Frames disk) (src : Source) (r : Reader) (t : Token) :
    Steady label r (r.loaded src load t) := by
  have hopened := hload.opened src.libraryKind t.text r.work
  have hwork : Steady label r { r with work := (load src.libraryKind t.text r.work).1 } := by
    refine ⟨?_, rfl, rfl⟩
    unfold Reader.marks
    rw [hopened]
  rw [loaded_eq]
  cases (load src.libraryKind t.text r.work).2 with
  | none => exact hwork
  | some problem => exact hwork.trans (report label _ _)

/-- A reader with the same sub-circuits open is where the outline is. -/
theorem follows (h : Steady label r r') {o : Outline} (hr : Follows label o r) :
    Follows label o r' := by
  obtain ⟨hmarks, hskip, hended⟩ := h
  refine ⟨hended.trans hr.ended, fun hgoes => ?_⟩
  rw [hmarks, hskip]
  exact hr.opened (hended.symm.trans hgoes)

end Steady

/-- Closing a sub-circuit takes it from those that are open. -/
theorem close_marks (label : String) {d : Definition} {around : List Definition}
    (hopened : r.work.opened = d :: around) :
    r.close.marks label = around.filterMap (Definition.mark (namespaceOf label)) ∧
      r.close.skipDepth = r.skipDepth ∧ r.close.ended = r.ended := by
  cases hcontains : r.work.forest.contains d.path with
  | true =>
    rw [close_of_contains hopened hcontains]
    obtain ⟨hmarks, hskip, hended⟩ := Steady.report label
      { r with work := { r.work with opened := around } }
      (.usual (.duplicateSubcircuit d.name) d.origin)
    exact ⟨hmarks, hskip, hended⟩
  | false =>
    rw [close_of_not_contains hopened hcontains]
    obtain ⟨hmarks, hskip, hended⟩ := Steady.modifyCurrent label
      { r with work := { r.work with opened := around, forest := r.work.forest.insert d.path d } }
      (g := fun parent => { parent with subcircuits := parent.subcircuits ++ [d.name] })
      (fun _ => rfl) fun _ => rfl
    exact ⟨hmarks, hskip, hended⟩

/-! ## Lines -/

section Lines

variable {earlier later : List (List Token)} {line : List Token}

/-- A finding in the body of the innermost definition is charged to it. -/
theorem charges_of_marks (h : r.Tracked lines faults label bound) {f : Finding}
    (hf : ∀ origin, f.origin = some origin → openOn lines origin.line = r.marks label) :
    Charges lines (namespaceOf label) bound r.work.opened r.work.forest f := by
  intro origin horigin start hstart
  refine .inl (h.nest.head?_filterMap_mark.symm.trans ?_)
  exact (congrArg List.head? (hf origin horigin).symm).trans hstart.2

/-- Actions that leave the nesting alone keep up what is known. -/
theorem tracked_performAll_inner (hload : load.Frames disk)
    (h : r.Tracked lines faults label bound)
    (hplace : ∀ t ∈ line, openOn lines t.line = r.marks label) (as : List Action)
    (has : ∀ a ∈ as, a.Inner src.file line) :
    (r.performAll src load.silenced as).Tracked lines faults label bound ∧
      Steady label r (r.performAll src load.silenced as) := by
  induction as generalizing r with
  | nil => exact ⟨h, rfl, rfl, rfl⟩
  | cons a rest ih =>
    obtain ⟨ha, hrest⟩ := List.forall_mem_cons.1 has
    obtain ⟨hone, hsteady⟩ : (r.perform src load.silenced a).Tracked lines faults label bound ∧
        Steady label r (r.perform src load.silenced a) := by
      cases ha with
      | report hf =>
        refine ⟨h.report fun _ => .inr (charges_of_marks h ?_), .report label _ _⟩
        obtain ⟨t, ht, problem, -, rfl⟩ := hf
        rintro origin horigin
        obtain rfl := Option.some.inj horigin
        exact hplace t ht
      | change hg => exact ⟨h.modifyCurrent hg hplace, .modifyCurrent label r hg.path hg.origin⟩
      | load ht => exact ⟨h.loaded hload (hplace _ ht), .loaded hload.silenced src r _⟩
    obtain ⟨hall, hsteadies⟩ := ih hone (fun t ht => (hplace t ht).trans hsteady.marks.symm) hrest
    exact ⟨hall, hsteady.trans hsteadies⟩

/-- A definition that is just opened has no places where something could be found wrong. -/
theorem places_opening (v : View) (command name : Token) (heading : Line.Heading) :
    (opening src v command name heading).places = [] := by
  rfl

/-- An opening sub-circuit lies inside the innermost definition and begins on its first line. -/
theorem opening_facts (src : Source) (h : r.Tracked lines faults label bound)
    {first name : Token} (hname : name.text.toList ≠ []) (heading : Line.Heading) :
    Under (namespaceOf label) (opening src r.view first name heading).path ∧
      (opening src r.view first name heading).mark (namespaceOf label) = some first.line ∧
      ∀ outer ∈ r.work.opened,
        belongsTo outer.path (opening src r.view first name heading).path = true := by
  have hcurrent : r.view.current.path = r.current.path := by
    rw [current_view]
    rfl
  have hpath : (opening src r.view first name heading).path =
      Scope.child (r.work.opened.headD default).path name.text :=
    congrArg (Scope.child · name.text) hcurrent
  obtain ⟨hunder, hinner⟩ :=
    Scope.under_child (namespaceOf_ne_empty label) h.nest.path_head hname
  rw [← hpath] at hunder hinner
  refine ⟨hunder, ?_, fun outer houter => ?_⟩
  · unfold Definition.mark
    rw [if_neg hunder.ne]
    rfl
  · exact Scope.belongsTo_trans (h.nest.belongsTo_head outer houter) hinner

/-- A sub-circuit is opened and its heading reported on. -/
theorem tracked_opens (src : Source) (hload : load.Frames disk)
    (h : r.Tracked lines faults label bound) {first name : Token} {rest : List Token}
    (hbound : bound ≤ first.line)
    (hname : name.text.toList ≠ [])
    (hplace : ∀ t ∈ first :: name :: rest, openOn lines t.line = first.line :: r.marks label) :
    let heading := Line.readHeading src.file rest
    let pushed := r.push (opening src r.view first name heading)
    let r' := pushed.performAll src load.silenced (heading.findings.map .report)
    r'.Tracked lines faults label (first.line + 1) ∧
      pushed.marks label = first.line :: r.marks label ∧ Steady label pushed r' := by
  intro heading pushed r'
  obtain ⟨hunder, hmark, hpaths⟩ := opening_facts src h hname heading
  have hpushed : pushed.Tracked lines faults label (first.line + 1) := by
    refine h.opens hbound hunder hmark hpaths ?_ (places_opening _ _ _ _)
    rw [hplace first List.mem_cons_self, List.filterMap_cons_some hmark]
    rfl
  have hopens : pushed.marks label = first.line :: r.marks label :=
    List.filterMap_cons_some hmark
  obtain ⟨hall, hsteady⟩ := tracked_performAll_inner hload hpushed
    (fun t (ht : t ∈ first :: name :: rest) => (hplace t ht).trans hopens.symm)
    (heading.findings.map .report)
    (forall_inner_map_report fun f hf => (Line.isAt_readHeading f hf).mono
      fun t ht => List.mem_cons_of_mem _ (List.mem_cons_of_mem _ ht))
  exact ⟨hall, hopens, hsteady⟩

/-- An error on the line of a rejected sub-circuit belongs to none that is at hand. -/
theorem charges_of_rejected (h : r.Tracked lines faults label bound) {number : Nat}
    (hbound : bound ≤ number) {f : Finding}
    (hf : ∀ origin, f.origin = some origin → (openOn lines origin.line).head? = some number) :
    Charges lines (namespaceOf label) (number + 1) r.work.opened r.work.forest f := by
  intro origin horigin start hstart
  obtain rfl := Option.some.inj ((hf origin horigin).symm.trans hstart.2)
  refine .inr ⟨Nat.lt_succ_self _, fun d hd hmark => ?_⟩
  exact absurd (Nat.lt_of_lt_of_le (h.early d hd _ hmark) hbound) (Nat.lt_irrefl _)

/-- Closing a sub-circuit takes the first line of the innermost one from those of the open ones. -/
theorem marks_close (h : r.Tracked lines faults label bound) (hdeep : 1 < r.work.opened.length) :
    r.close.marks label = (r.marks label).tail ∧ r.close.skipDepth = r.skipDepth ∧
      r.close.ended = r.ended := by
  obtain ⟨d, around, hopened⟩ := h.exists_opened_eq
  have hnest := h.nest
  rw [hopened] at hdeep hnest
  obtain ⟨-, number, -, hmark, -, -, -⟩ := hnest.tail (Nat.lt_of_succ_lt_succ hdeep)
  obtain ⟨hclosed, hrest⟩ := close_marks label hopened
  refine ⟨?_, hrest⟩
  rw [hclosed, marks, hopened, List.filterMap_cons_some hmark, List.tail_cons]

/-- A line keeps up what is known, and the reader goes with the outline. -/
theorem tracked_readLine (src : Source) (horder : InOrder lines) (hload : load.Frames disk)
    (hlines : lines = earlier ++ line :: later) (hnamed : ∀ t ∈ line, t.Named)
    (h : r.Tracked lines faults label bound) (hbound : bound ≤ Tokenized.startOf line)
    (hfollows : Follows label (Outline.behind earlier) r) (hgoes : r.ended = false) :
    (r.readLine src load.silenced line).Tracked lines faults label (Tokenized.startOf line + 1) ∧
      Follows label ((Outline.behind earlier).after line) (r.readLine src load.silenced line) := by
  have hplace : ∀ t ∈ line, openOn lines t.line = ((Outline.behind earlier).after line).opened :=
    fun t ht => horder.openOn_eq hlines ht
  have hlater := h.mono (Nat.le_succ_of_le hbound)
  have hended : (Outline.behind earlier).ended = false := hfollows.ended.symm.trans hgoes
  obtain ⟨rejected, hrejected, hopened⟩ := hfollows.opened hgoes
  -- unless a rejected sub-circuit is skipped, the outline has just the open ones
  have hmarks : r.skipDepth = 0 → (Outline.behind earlier).opened = r.marks label := by
    intro hreads
    rw [hreads] at hrejected
    rw [hopened, List.eq_nil_of_length_eq_zero hrejected]
    rfl
  rw [readLine_eq]
  have hshape := lineShape_actions src r.view line
  revert hshape
  generalize actions src r.view line = as
  intro hshape
  cases hshape with
  | blank => exact ⟨hlater, hfollows⟩
  | inner hreads hfirst has =>
    rw [Outline.after_of_plain hended hfirst] at hplace ⊢
    obtain ⟨hall, hsteady⟩ := tracked_performAll_inner hload hlater
      (fun t ht => (hplace t ht).trans (hmarks hreads)) as has
    exact ⟨hall, hsteady.follows hfollows⟩
  | @opens first name rest hreads hfirst hname hfresh =>
    rw [Outline.after_of_opening hended hfirst, hmarks hreads] at hplace ⊢
    have hne := (hnamed name (List.mem_cons_of_mem _ List.mem_cons_self) hname).1
    obtain ⟨hall, hopens, hsteady⟩ := tracked_opens src hload h hbound hne hplace
    rw [performAll_cons]
    exact ⟨hall, hsteady.follows ⟨hfollows.ended, fun _ => ⟨[], hreads.symm, hopens.symm⟩⟩⟩
  | @rejects first rest f hreads hfirst hf =>
    rw [Outline.after_of_opening hended hfirst] at hplace ⊢
    obtain ⟨t, ht, problem, -, rfl⟩ := hf
    have hsteady := Steady.report label r (findingAt src.file t problem)
    refine ⟨?_, hsteady.ended.trans hfollows.ended, fun _ => ⟨[first.line], rfl, ?_⟩⟩
    · refine hlater.report fun _ => .inr (charges_of_rejected h hbound fun origin horigin => ?_)
      obtain rfl := Option.some.inj horigin
      exact congrArg List.head? (hplace t ht)
    · show first.line :: (Outline.behind earlier).opened = [first.line] ++ _
      rw [hmarks hreads]
      exact congrArg (first.line :: ·) hsteady.marks.symm
  | closes hreads hfirst hdeep =>
    rw [Outline.after_of_closing hended hfirst, hmarks hreads]
    rw [← length_opened_eq_view] at hdeep
    obtain ⟨hmarks', hskip, hended'⟩ := marks_close h hdeep
    exact ⟨hlater.close hdeep, hended'.trans hfollows.ended,
      fun _ => ⟨[], hreads.symm.trans hskip.symm, hmarks'.symm⟩⟩
  | unmatched hreads hfirst hshallow hf =>
    rw [Outline.after_of_closing hended hfirst] at hplace ⊢
    rw [← length_opened_eq_view] at hshallow
    have hnone : r.marks label = [] := h.nest.filterMap_mark_of_length hshallow
    rw [hmarks hreads, hnone] at hplace ⊢
    obtain ⟨t, ht, problem, -, rfl⟩ := hf
    have hsteady := Steady.report label r (findingAt src.file t problem)
    refine ⟨hlater.report fun _ => .inr (charges_of_marks hlater ?_),
      hsteady.ended.trans hfollows.ended, fun _ => ⟨[], ?_, (hsteady.marks.trans hnone).symm⟩⟩
    · rintro origin horigin
      obtain rfl := Option.some.inj horigin
      exact (hplace t ht).trans hnone.symm
    · exact hreads.symm.trans hsteady.skipDepth.symm
  | stops hfirst =>
    rw [Outline.after_of_final hended hfirst]
    exact ⟨hlater, rfl, fun hgoes => absurd hgoes (by simp [performAll, perform, readEnd])⟩
  | skips hskips hfirst =>
    rw [Outline.after_of_plain hended hfirst]
    exact ⟨hlater, hfollows⟩
  | @deeper first rest hskips hfirst =>
    rw [Outline.after_of_opening hended hfirst]
    refine ⟨hlater, hfollows.ended, fun _ => ⟨first.line :: rejected, ?_, ?_⟩⟩
    · exact congrArg (· + 1) hrejected
    · exact congrArg (first.line :: ·) hopened
  | shallower hskips hfirst =>
    rw [Outline.after_of_closing hended hfirst]
    refine ⟨hlater, hfollows.ended, fun _ => ⟨rejected.tail, ?_, ?_⟩⟩
    · rw [List.length_tail, hrejected]
      rfl
    · have hne : rejected ≠ [] := by
        rintro rfl
        exact absurd hrejected.symm (Nat.ne_of_gt hskips)
      show (Outline.behind earlier).opened.tail = rejected.tail ++ r.marks label
      rw [hopened, List.tail_append_of_ne_nil hne]

/-- No body has the place of a first line of the text. -/
theorem not_inBody_first (horder : InOrder lines) {first : Token} {rest : List Token}
    (hlines : lines = (first :: rest) :: later) (start : Nat) :
    ¬InBody lines start first.line := by
  rintro ⟨hlt, hhead⟩
  rw [horder.openOn_eq (show lines = [] ++ (first :: rest) :: later from hlines)
    List.mem_cons_self] at hhead
  change (Outline.after ⟨[], false⟩ (first :: rest)).opened.head? = some start at hhead
  cases hfirst : first.bracket with
  | opening =>
    rw [Outline.after_of_opening rfl hfirst] at hhead
    obtain rfl := Option.some.inj hhead
    exact absurd hlt (Nat.lt_irrefl _)
  | closing =>
    rw [Outline.after_of_closing rfl hfirst] at hhead
    exact absurd hhead (by simp)
  | final =>
    rw [Outline.after_of_final rfl hfirst] at hhead
    exact absurd hhead (by simp)
  | plain =>
    rw [Outline.after_of_plain rfl hfirst] at hhead
    exact absurd hhead (by simp)

/-- The first line keeps up the tracking and follows the outline, be it a title or read like the
others. -/
theorem tracked_readTitle (src : Source) (horder : InOrder lines) (hload : load.Frames disk)
    (hlines : lines = line :: later) (hnamed : ∀ t ∈ line, t.Named)
    (h : r.Tracked lines faults label bound) (hbound : bound ≤ Tokenized.startOf line)
    (hfollows : Follows label (Outline.behind []) r) (hgoes : r.ended = false)
    (hmarks : r.marks label = []) :
    (r.readTitle src load.silenced line).Tracked lines faults label
        (Tokenized.startOf line + 1) ∧
      Follows label ((Outline.behind []).after line) (r.readTitle src load.silenced line) := by
  have hplace : ∀ t ∈ line, openOn lines t.line = ((Outline.behind []).after line).opened :=
    fun t ht => horder.openOn_eq hlines ht
  unfold readTitle
  split
  · have hsteady := Steady.report label r (.usual .missingTitle none)
    refine ⟨(h.mono (Nat.le_succ_of_le hbound)).report fun _ => .inr fun origin horigin => ?_,
      hsteady.follows hfollows⟩
    exact absurd horigin (by simp [Finding.usual])
  · rename_i first rest
    split
    · rename_i hkind
      have hfirst : first.bracket = .plain := by
        refine Token.bracket_of_isCommand_eq_false ?_
        unfold Token.isCommand
        rw [hkind]
      rw [Outline.after_of_plain rfl hfirst] at hplace ⊢
      have hlater := h.mono (Nat.le_succ_of_le hbound)
      have hmild : Mild src.file (first :: rest) fun d => { d with title := first.text } :=
        Simulation.mild_title first.text
      refine ⟨hlater.modifyCurrent hmild fun t ht => (hplace t ht).trans hmarks.symm, ?_⟩
      exact (Steady.modifyCurrent label r hmild.path hmild.origin).follows hfollows
    · have hsteady := Steady.report label r (findingAt src.file first .missingTitle)
      have hreported : (r.report (findingAt src.file first .missingTitle)).Tracked lines faults
          label bound := by
        refine h.report fun _ => .inr fun origin horigin start hstart => ?_
        obtain rfl := Option.some.inj horigin
        exact absurd hstart (not_inBody_first horder hlines start)
      exact tracked_readLine src horder hload
        (show lines = [] ++ (first :: rest) :: later from hlines) hnamed hreported hbound
        (hsteady.follows hfollows) (hsteady.ended.trans hgoes)

/-- Line by line the reader goes with the outline. -/
theorem tracked_readLines (src : Source) (horder : InOrder lines) (hload : load.Frames disk)
    (hlines : lines = earlier ++ later) (hnamed : ∀ line ∈ later, ∀ t ∈ line, t.Named)
    (h : r.Tracked lines faults label bound)
    (hbound : ∀ line ∈ later, bound ≤ Tokenized.startOf line)
    (hfollows : Follows label (Outline.behind earlier) r) :
    ∃ bound', (r.readLines src load.silenced later).Tracked lines faults label bound' := by
  induction later generalizing r earlier bound with
  | nil => exact ⟨bound, h⟩
  | cons line rest ih =>
    obtain ⟨hline, hrest⟩ := List.forall_mem_cons.1 hnamed
    unfold readLines
    split
    · exact ⟨bound, h⟩
    · rename_i hgoes
      obtain ⟨hread, hgoesOn⟩ := tracked_readLine src horder hload hlines hline h
        (hbound line List.mem_cons_self) hfollows (Bool.eq_false_iff.2 hgoes)
      rw [← Outline.behind_concat] at hgoesOn
      refine ih (by rw [hlines, List.append_assoc]; rfl) hrest hread (fun next hnext => ?_) hgoesOn
      have hne : line ≠ [] := horder.nonempty line
        (by rw [hlines]; exact List.mem_append_right _ List.mem_cons_self)
      obtain ⟨t, ht, hstart⟩ := Outline.exists_line_eq_startOf hne
      have hlt := (horder.startOf_lt hlines).2 next hnext t ht
      omega

end Lines

/-! ## Texts -/

/-- A sub-circuit that is left open is closed with an error that it is to blame for. -/
theorem tracked_closeLeftOver (n : Nat) (h : r.Tracked lines faults label bound)
    (hn : n < r.work.opened.length) :
    (r.closeLeftOver n).Tracked lines faults label bound := by
  induction n generalizing r with
  | zero => exact h
  | succ n ih =>
    unfold closeLeftOver
    have hreported : (r.report (.usual (.unterminatedSubcircuit r.current.name)
        r.current.origin)).Tracked lines faults label bound := by
      refine h.report fun _ => .inr fun origin horigin start hstart => ?_
      obtain ⟨d, around, hopened⟩ := h.exists_opened_eq
      have hstarts : Tracks lines faults (namespaceOf label) bound (d :: around) r.work.forest
          r.findings := hopened ▸ h
      rw [hopened, List.length_cons] at hn
      have horigin : d.origin = some origin := by
        have hcurrent : r.current = d := by
          unfold Reader.current
          rw [hopened]
          rfl
        rw [← hcurrent]
        exact horigin
      exact absurd hstart (hstarts.not_inBody_of_mark (by omega) horigin start)
    have hlength := length_opened_report r
      (.usual (.unterminatedSubcircuit r.current.name) r.current.origin)
    refine ih (hreported.close (by omega)) ?_
    rw [length_opened_close]
    omega

/-- Closing all that is left open keeps up the tracking. -/
theorem tracked_closeAll (h : r.Tracked lines faults label bound) (src : Source) :
    (r.closeAll src).Tracked lines faults label bound := by
  have hpos : 0 < r.work.opened.length := h.nest.nonempty
  have hclosed := tracked_closeLeftOver (r.work.opened.length - 1) h (by omega)
  unfold closeAll
  dsimp only
  split
  · refine hclosed.report fun _ => .inr fun origin horigin => ?_
    exact absurd horigin (by simp [Finding.usual])
  · exact hclosed

/-- The beginning of a library text. -/
theorem tracked_initial {w : Workspace} (hfindings : w.diagnostics.findings = [])
    (hopened : w.opened = [])
    (hnone : ∀ path : String, belongsTo (namespaceOf label) path = true → w.forest[path]? = none)
    (lines : List (List Token)) (faults : List Finding) (src : Source) (text : String) :
    (initial src (namespaceOf label) text w).Tracked lines faults label 0 ∧
      (initial src (namespaceOf label) text w).marks label = [] := by
  have hwork : (initial src (namespaceOf label) text w).work.opened =
      [Definition.blank (src.rootName (namespaceOf label)) (namespaceOf label) ""
        (some ⟨src.file, 1, 1⟩)] := by
    unfold initial
    rw [hopened]
  have hroot : ∀ d ∈ (initial src (namespaceOf label) text w).work.opened,
      d.mark (namespaceOf label) = none ∧ d.places = [] := by
    rw [hwork]
    exact List.forall_mem_singleton.2 ⟨Definition.mark_of_path_eq rfl, rfl⟩
  have hclosed : ∀ path d, ¬Closed (namespaceOf label) w.forest path d := by
    rintro path d ⟨hbelongs, hd⟩
    rw [hnone path hbelongs] at hd
    exact absurd hd (by simp)
  have hknown : ∀ d, Known (namespaceOf label)
      (initial src (namespaceOf label) text w).work.opened w.forest d →
        d.mark (namespaceOf label) = none ∧ d.places = [] := by
    rintro d (hd | ⟨path, hd⟩)
    · exact hroot d hd
    · exact absurd hd (hclosed path d)
  refine ⟨⟨?_, fun path d hd => absurd hd (hclosed path d),
    fun path d hd => absurd hd (hclosed path d), fun path d hd => absurd hd (hclosed path d),
    fun path d _ _ hd => absurd hd (hclosed path d), fun d hd origin horigin => ?_,
    fun d hd number hnumber => ?_, fun f hf => ?_⟩, ?_⟩
  · rw [hwork]
    exact .text rfl
  · rw [(hknown d hd).2] at horigin
    exact absurd horigin List.not_mem_nil
  · rw [(hknown d hd).1] at hnumber
    exact absurd hnumber (by simp)
  · change f ∈ w.diagnostics.findings at hf
    rw [hfindings] at hf
    exact absurd hf List.not_mem_nil
  · exact List.filterMap_eq_nil_iff.2 fun d hd => (hroot d hd).1

/-- Reporting faults of tokens keeps up the tracking and opens nothing. -/
theorem tracked_reportAll_faults (h : r.Tracked lines faults label bound) {fs : List Finding}
    (hfs : fs ⊆ faults) :
    (r.reportAll fs).Tracked lines faults label bound ∧ Steady label r (r.reportAll fs) := by
  induction fs generalizing r with
  | nil => exact ⟨h, rfl, rfl, rfl⟩
  | cons f rest ih =>
    obtain ⟨hf, hrest⟩ := List.cons_subset.1 hfs
    obtain ⟨hall, hsteady⟩ := ih (h.report fun _ => .inl hf) hrest
    exact ⟨hall, (Steady.report label r f).trans hsteady⟩

/-- What is known of the definitions at hand when a library text has been read, in a workspace in
which nothing has been reported before and no definition of the text is to be found; only the text's
own one is still open. -/
theorem tracked_ofText (hload : load.Frames disk) {w : Workspace}
    (hfindings : w.diagnostics.findings = []) (hopened : w.opened = [])
    (hnone : ∀ path : String, belongsTo (namespaceOf label) path = true → w.forest[path]? = none)
    (src : Source) (text : String) :
    (∃ bound, (ofText load.silenced src (namespaceOf label) text w).Tracked (tokenize text).lines
        (Reader.faults src.file text) label bound) ∧
      (ofText load.silenced src (namespaceOf label) text w).work.opened.length = 1 := by
  obtain ⟨hstart, hmarks⟩ := tracked_initial hfindings hopened hnone (tokenize text).lines
    (Reader.faults src.file text) src text
  obtain ⟨hfaults, hsteady⟩ := tracked_reportAll_faults hstart (List.Subset.refl _)
  have horder := Outline.inOrder_tokenize text
  have hnamed := @Tokenized.named_of_mem_lines text
  unfold ofText readText
  revert hfaults hsteady
  generalize (initial src (namespaceOf label) text w).reportAll (Reader.faults src.file text) = r
  intro hfaults hsteady
  have hbegins : r.marks label = [] := hsteady.marks.trans hmarks
  have hgoes : r.ended = false := hsteady.ended
  have hfollows : Follows label (Outline.behind []) r :=
    ⟨hgoes, fun _ => ⟨[], hsteady.skipDepth.symm, hbegins.symm⟩⟩
  obtain ⟨bound, hall⟩ : ∃ bound, (r.readAll src load.silenced (tokenize text).lines).Tracked
      (tokenize text).lines (Reader.faults src.file text) label bound := by
    revert hfaults horder hnamed
    generalize (tokenize text).lines = lines
    intro horder hnamed hfaults
    cases lines with
    | nil =>
      refine ⟨0, hfaults.report fun _ => .inr fun origin horigin => ?_⟩
      exact absurd horigin (by simp [Finding.usual])
    | cons title rest =>
      obtain ⟨htitle, hrest⟩ := List.forall_mem_cons.1 hnamed
      obtain ⟨hread, hgoesOn⟩ := tracked_readTitle src horder hload rfl htitle hfaults
        (Nat.zero_le _) hfollows hgoes hbegins
      refine tracked_readLines src horder hload (show title :: rest = [title] ++ rest from rfl)
        hrest hread (fun next hnext => ?_) hgoesOn
      obtain ⟨t, ht, hstart⟩ :=
        Outline.exists_line_eq_startOf (horder.nonempty title List.mem_cons_self)
      have hlt := (horder.startOf_lt (show title :: rest = [] ++ title :: rest from rfl)).2 next
        hnext t ht
      omega
  exact ⟨⟨bound, tracked_closeAll hall src⟩, length_opened_closeAll src hall.nest.nonempty⟩

end Reader

end FlatNet
