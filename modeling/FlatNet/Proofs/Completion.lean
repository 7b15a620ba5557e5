import FlatNet.Circuit.Completion
import FlatNet.Proofs.Globals
import FlatNet.Proofs.NameMap
import FlatNet.Proofs.Resolution

/-!
# Completed circuits

Completion leaves the elements of a circuit alone, and its only error is that nothing is connected
to ground.  It defines the global parameters that the circuit uses, and no other names: what it adds
is what can be reached from a used symbol, and what is used and still has no definition is reported
once.
-/

set_option autoImplicit false

namespace FlatNet.Circuit

variable {c : Circuit} {g : Globals} {name : String}

/-- Completion keeps the elements. -/
theorem elements_complete (c : Circuit) (g : Globals) :
    (c.complete g).1.elements = c.elements := by
  unfold complete
  dsimp only
  split <;> rfl

/-- Findings of no matter which names are no errors if their problems are none. -/
theorem errorCount_map_usual_eq_zero {names : List String} {problem : String → Problem}
    (hproblem : ∀ name, (problem name).severity ≠ .error) (place : String → Option Origin) :
    errorCount (names.map fun name => Finding.usual (problem name) (place name)) = 0 := by
  refine List.countP_eq_zero.2 fun f hf => ?_
  obtain ⟨name, -, rfl⟩ := List.mem_map.1 hf
  intro herror
  exact hproblem name (eq_of_beq herror)

/-- What is found wrong with declarations is no error. -/
theorem errorCount_declarationFindings {problem : String → Problem}
    (hproblem : ∀ name, (problem name).severity ≠ .error) (names : List String)
    (declarations : List Declaration) :
    errorCount (declarationFindings problem names declarations) = 0 := by
  refine List.countP_eq_zero.2 fun f hf => ?_
  obtain ⟨d, -, rfl⟩ := List.mem_map.1 hf
  intro herror
  exact hproblem d.name (eq_of_beq herror)

/-- The only error in the completion of a circuit is that no element is connected to ground. -/
theorem errors_complete (c : Circuit) (g : Globals) :
    (c.complete g).1.errors =
      c.errors + if c.connectedNodes.contains groundNode then 0 else 1 := by
  unfold complete
  dsimp only
  have hground : ({ c with nodes := c.connectedNodes } : Circuit).hasGround =
      c.connectedNodes.contains groundNode := rfl
  rw [hground]
  split
  · show c.errors + errorCount (_ ++ _) = c.errors + 0
    rw [errorCount_append, allDeclarationFindings, errorCount_append, errorCount_append,
      undefinedFindings, errorCount_map_usual_eq_zero (by simp [Problem.severity]),
      errorCount_declarationFindings (by simp [Problem.severity]),
      errorCount_declarationFindings (by simp [Problem.severity]),
      errorCount_declarationFindings (by simp [Problem.severity])]
  · rfl

/-- Completion keeps the errors that have been counted. -/
theorem errors_le_complete (c : Circuit) (g : Globals) : c.errors ≤ (c.complete g).1.errors := by
  rw [errors_complete]
  exact Nat.le_add_right _ _

/-- A circuit without elements is not completed without errors. -/
theorem errors_complete_pos {c : Circuit} (g : Globals) (h : c.elements = ∅) :
    0 < (c.complete g).1.errors := by
  have hground : c.connectedNodes.contains groundNode = false := by
    unfold connectedNodes
    rw [h]
    rfl
  rw [errors_complete, hground]
  exact Nat.succ_pos c.errors

/-- The symbol occurs in a value of the map. -/
def OccursIn (name : String) (params : NameMap Expr) : Prop :=
  ∃ (k : String) (v : Expr), params[k]? = some v ∧ name ∈ v.symbols

/-- The circuit uses the symbol: it is not reserved, and it occurs in a parameter of an element or
of the circuit. -/
def Uses (c : Circuit) (name : String) : Prop :=
  isReserved name = false ∧
    ((∃ e ∈ c.elements.values, OccursIn name e.params) ∨ OccursIn name c.params)

/-- What occurs in a map is an occurrence in one of its values. -/
theorem occursIn_iff {params : NameMap Expr} :
    OccursIn name params ↔ ∃ v ∈ params.values, name ∈ v.occurrences := by
  constructor
  · rintro ⟨k, v, hk, hname⟩
    exact ⟨v, NameMap.mem_values.2 ⟨k, hk⟩, Expr.mem_symbols.1 hname⟩
  · rintro ⟨v, hv, hname⟩
    obtain ⟨k, hk⟩ := NameMap.mem_values.1 hv
    exact ⟨k, v, hk, Expr.mem_symbols.2 hname⟩

/-- The symbols of an element are those that occur in its parameters. -/
theorem mem_elementSymbols {e : Element} : name ∈ elementSymbols e ↔ OccursIn name e.params := by
  rw [elementSymbols, List.mem_flatMap, occursIn_iff]

/-- The symbols that are collected from a circuit are those that it uses. -/
theorem mem_usedSymbols : name ∈ c.usedSymbols ↔ c.Uses name := by
  unfold usedSymbols Uses
  rw [NameSet.mem_ofList, List.mem_filter, List.mem_append, List.mem_flatMap, List.mem_flatMap,
    Bool.not_eq_true', and_comm, occursIn_iff]
  simp only [mem_elementSymbols]

/-- A circuit with ground is completed by the global parameters that it uses. -/
theorem params_complete (hground : c.connectedNodes.contains groundNode = true) :
    (c.complete g).1.params = g.pull c.usedSymbols.toList c.params := by
  unfold complete
  dsimp only
  have hhas : ({ c with nodes := c.connectedNodes } : Circuit).hasGround = true := hground
  rw [if_pos hhas]
  rfl

/-- Completion keeps the definitions of a circuit. -/
theorem getElem?_params_complete {value : Expr} (h : c.params[name]? = some value) :
    (c.complete g).1.params[name]? = some value := by
  cases hground : c.connectedNodes.contains groundNode with
  | true =>
    rw [params_complete hground]
    exact Globals.getElem?_pull_of_getElem? h
  | false =>
    unfold complete
    dsimp only
    have hhas : ({ c with nodes := c.connectedNodes } : Circuit).hasGround = false := hground
    rw [if_neg (by rw [hhas]; simp)]
    exact h

/-- Completion defines the global parameters that the completed circuit uses, and no other
names. -/
theorem contains_params_complete (hground : c.connectedNodes.contains groundNode = true)
    (hreserved : isReserved name = false) :
    (c.complete g).1.params.contains name = true ↔ c.params.contains name = true ∨
      g.contains name = true ∧ name ∈ (c.complete g).1.usedSymbols := by
  have hparams := params_complete (g := g) hground
  have helements := elements_complete c g
  constructor
  · intro h
    cases hold : c.params.contains name with
    | true => exact .inl rfl
    | false =>
      rw [hparams] at h
      refine .inr ⟨Globals.contains_of_contains_pull h hold, mem_usedSymbols.2 ⟨hreserved, ?_⟩⟩
      rcases Globals.mem_names_or_used_of_pull h hold with hused | ⟨k, v, -, hk, hname⟩
      · rcases (mem_usedSymbols.1 (Std.ExtTreeSet.mem_toList.1 hused)).2 with
          ⟨e, he, hname⟩ | ⟨k, v, hk, hname⟩
        · exact .inl ⟨e, by rwa [helements], hname⟩
        · exact .inr ⟨k, v, getElem?_params_complete hk, hname⟩
      · exact .inr ⟨k, v, by rwa [hparams], hname⟩
  · rintro (h | ⟨hglobal, hused⟩)
    · rw [hparams]
      exact Globals.contains_pull_of_contains h
    · rw [hparams]
      have hasked : name ∈ c.usedSymbols →
          (g.pull c.usedSymbols.toList c.params).contains name = true := fun hmem =>
        Globals.contains_pull_of_mem (Std.ExtTreeSet.mem_toList.2 hmem) hglobal
      -- what is used has been asked for, or is used in a definition that has been pulled
      rcases (mem_usedSymbols.1 hused).2 with ⟨e, he, hname⟩ | ⟨k, v, hk, hname⟩
      · rw [helements] at he
        exact hasked (mem_usedSymbols.2 ⟨hreserved, .inl ⟨e, he, hname⟩⟩)
      · rw [hparams] at hk
        cases hold : c.params[k]? with
        | none =>
          exact Globals.contains_pull_of_used (NameMap.contains_eq_false_iff.2 hold) hk hname
            hglobal
        | some u =>
          rw [Globals.getElem?_pull_of_getElem? hold] at hk
          rw [Option.some.inj hk] at hold
          exact hasked (mem_usedSymbols.2 ⟨hreserved, .inr ⟨k, v, hold, hname⟩⟩)

/-! ## The parameters of the completed circuit -/

/-- The completed circuit `c'` has closed the parameters of `c`. -/
structure ClosedBy (c : Circuit) (g : Globals) (c' : Circuit) : Prop where
  elements : c'.elements = c.elements
  /-- What was defined stays. -/
  kept : ∀ (name : String) (value : Expr), c.params[name]? = some value →
    c'.params[name]? = some value
  /-- What is added has the definition of the user library or else of the built-in one. -/
  added : ∀ (name : String) (value : Expr), c.params.contains name = false →
    c'.params[name]? = some value → g.value? name = some value
  /-- Exactly those global parameters are added that can be reached from a used symbol. -/
  reached : ∀ name, c.params.contains name = false →
    (c'.params.contains name = true ↔ g.contains name = true ∧
      ∃ used, c.Uses used ∧ Relation.ReflTransGen (g.Leads c.params) used name)
  /-- Of the symbols that the completed circuit uses, those without a definition are undefined. -/
  undefined : ∀ name, name ∈ c'.undefined ↔ c'.Uses name ∧ c'.params.contains name = false
  /-- No library defines an undefined parameter. -/
  unknown : ∀ name ∈ c'.undefined, g.user.params[name]? = none ∧ g.builtin.params[name]? = none

/-- The element is the first one in the order of names that uses the symbol. -/
def IsFirstUser (c : Circuit) (name : String) (e : Element) : Prop :=
  ∃ key : String, c.elements[key]? = some e ∧ OccursIn name e.params ∧
    ∀ (other : String) (e' : Element), c.elements[other]? = some e' → OccursIn name e'.params →
      key ≤ other

/-- An undefined parameter is found once, at the first element that uses it; if none does, the
finding has no place. -/
def ReportsOnce (c : Circuit) (findings : List Finding) (name : String) : Prop :=
  ∃ place : Option Origin,
    (findings.filter fun f => f.problem == .undefinedParameter name) =
      [.usual (.undefinedParameter name) place] ∧
    ((∃ e, c.IsFirstUser name e ∧ place = some e.origin) ∨
      (∀ e ∈ c.elements.values, ¬OccursIn name e.params) ∧ place = none)

/-- A row of symbols is noted at one place, except for those noted before. -/
theorem getElem?_foldl_note (symbols : List String) (uses : NameMap Origin) (place : Origin)
    (name : String) :
    (symbols.foldl (fun m name => m.insertIfNew name place) uses)[name]? =
      (uses[name]?).or (if name ∈ symbols then some place else none) := by
  induction symbols generalizing uses with
  | nil => exact Option.or_none.symm
  | cons first rest ih =>
    rw [List.foldl_cons, ih, Std.ExtTreeMap.getElem?_insertIfNew]
    by_cases hfirst : first = name
    · subst hfirst
      cases hold : uses[first]? with
      | none => simp [Std.ExtTreeMap.mem_iff_isSome_getElem?, hold]
      | some origin => simp [Std.ExtTreeMap.mem_iff_isSome_getElem?, hold]
    · simp [hfirst, Ne.symm hfirst]

/-- A symbol is noted at the first element that uses it. -/
theorem getElem?_firstUses (c : Circuit) (name : String) :
    c.firstUses[name]? = (c.elements.values.find? fun e => name ∈ elementSymbols e).map
      Element.origin := by
  have hrow : ∀ (es : List Element) (uses : NameMap Origin),
      (es.foldl (fun uses e => (elementSymbols e).foldl (fun m name => m.insertIfNew name e.origin)
        uses) uses)[name]? =
      (uses[name]?).or ((es.find? fun e => name ∈ elementSymbols e).map Element.origin) := by
    intro es
    induction es with
    | nil => exact fun _ => Option.or_none.symm
    | cons e rest ih =>
      intro uses
      rw [List.foldl_cons, ih, getElem?_foldl_note, Option.or_assoc, List.find?_cons]
      by_cases he : name ∈ elementSymbols e
      · simp [he]
      · simp [he]
  rw [firstUses, hrow]
  simp

/-- The place that is noted for a symbol is that of the first element that uses it. -/
theorem place_firstUses (c : Circuit) (name : String) :
    (∃ e, c.IsFirstUser name e ∧ c.firstUses[name]? = some e.origin) ∨
      (∀ e ∈ c.elements.values, ¬OccursIn name e.params) ∧ c.firstUses[name]? = none := by
  rw [getElem?_firstUses]
  cases hfind : c.elements.values.find? fun e => name ∈ elementSymbols e with
  | none =>
    refine .inr ⟨fun e he huses => List.find?_eq_none.1 hfind e he ?_, rfl⟩
    exact decide_eq_true (mem_elementSymbols.2 huses)
  | some e =>
    obtain ⟨key, hkey, huses, hfirst⟩ := NameMap.exists_first_of_find?_values hfind
    refine .inl ⟨e, ⟨key, hkey, mem_elementSymbols.1 (of_decide_eq_true huses),
      fun other e' he' huses' => ?_⟩, rfl⟩
    exact hfirst other e' he' (decide_eq_true (mem_elementSymbols.2 huses'))

/-- An undefined parameter is found once among the undefined parameters. -/
theorem filter_undefinedFindings (h : name ∈ c.undefined) :
    (c.undefinedFindings.filter fun f => f.problem == .undefinedParameter name) =
      [.usual (.undefinedParameter name) c.firstUses[name]?] := by
  have hone : (c.undefined.toList.filter fun other => other == name) = [name] := by
    rw [List.filter_beq, List.count_eq_one_of_mem NameSet.nodup_toList
      (Std.ExtTreeSet.mem_toList.2 h)]
    rfl
  have hcomp : ((fun f : Finding => f.problem == .undefinedParameter name) ∘
      fun name => .usual (.undefinedParameter name) c.firstUses[name]?) =
      fun other => other == name := by
    funext other
    rw [Bool.eq_iff_iff]
    simp [Finding.usual]
  unfold undefinedFindings
  dsimp only
  rw [List.filter_map, hcomp, hone]
  rfl

/-- A wrong declaration is not an undefined parameter. -/
theorem filter_declarationFindings {problem : String → Problem}
    (hproblem : ∀ other, problem other ≠ .undefinedParameter name) (names : List String)
    (declarations : List Declaration) :
    ((declarationFindings problem names declarations).filter fun f =>
      f.problem == .undefinedParameter name) = [] := by
  refine List.filter_eq_nil_iff.2 fun f hf => ?_
  obtain ⟨d, -, rfl⟩ := List.mem_map.1 hf
  simpa [Finding.usual] using hproblem d.name

/-- What is found wrong with declarations is about no undefined parameter. -/
theorem filter_allDeclarationFindings (c : Circuit) (name : String) :
    (c.allDeclarationFindings.filter fun f => f.problem == .undefinedParameter name) = [] := by
  unfold allDeclarationFindings
  rw [List.filter_append, List.filter_append, filter_declarationFindings (by simp),
    filter_declarationFindings (by simp), filter_declarationFindings (by simp)]
  rfl

/-- The circuit with all that follows from its elements. -/
def completed (c : Circuit) (g : Globals) : Circuit :=
  ({ c with nodes := c.connectedNodes } : Circuit).withUnknowns.withGlobals g

/-- A circuit that is connected to ground is completed with its unknowns and its parameters. -/
theorem complete_of_ground (hground : c.connectedNodes.contains groundNode = true) :
    c.complete g = ({ c.completed g with
        errors := c.errors + errorCount (c.complete g).2 },
      (c.completed g).undefinedFindings ++ (c.completed g).allDeclarationFindings) := by
  have hhas : ({ c with nodes := c.connectedNodes } : Circuit).hasGround = true := hground
  unfold complete
  dsimp only
  rw [if_pos hhas]
  rfl

/-- What a completed circuit uses without a definition is undefined. -/
theorem mem_undefined_complete (hground : c.connectedNodes.contains groundNode = true) :
    name ∈ (c.complete g).1.undefined ↔ name ∈ (c.complete g).1.usedSymbols ∧
      (c.complete g).1.params.contains name = false := by
  rw [complete_of_ground hground]
  show name ∈ (c.completed g).usedSymbols.filter _ ↔
    name ∈ (c.completed g).usedSymbols ∧ (c.completed g).params.contains name = false
  rw [Std.ExtTreeSet.mem_filter]
  simp only [Std.ExtTreeSet.get_eq, Bool.not_eq_true', exists_prop]
  exact Iff.rfl

/-- Completion closes the parameters of a circuit. -/
theorem closedBy_complete (hground : c.connectedNodes.contains groundNode = true) :
    c.ClosedBy g (c.complete g).1 where
  elements := elements_complete c g
  kept := fun _ _ h => getElem?_params_complete h
  added := by
    intro name value hnew h
    rw [params_complete hground] at h
    rcases Globals.getElem?_pull h with hold | ⟨-, hglobal⟩
    · rw [NameMap.contains_eq_false_iff.1 hnew] at hold
      exact absurd hold (by simp)
    · exact hglobal
  reached := by
    intro name hnew
    rw [params_complete hground, Globals.contains_pull_iff hnew]
    simp only [Std.ExtTreeSet.mem_toList, mem_usedSymbols]
  undefined := fun _ => (mem_undefined_complete hground).trans (and_congr_left' mem_usedSymbols)
  unknown := by
    intro name hname
    obtain ⟨hused, hnone⟩ := (mem_undefined_complete hground).1 hname
    have hglobal : g.contains name = false := by
      by_contra hcontains
      rw [Bool.not_eq_false] at hcontains
      have hdefined := (contains_params_complete (g := g) hground (mem_usedSymbols.1 hused).1).2
        (.inr ⟨hcontains, hused⟩)
      rw [hnone] at hdefined
      exact absurd hdefined (by simp)
    exact Option.or_eq_none_iff.1
      (Option.isNone_iff_eq_none.1 (Option.isSome_eq_false_iff.1 hglobal))

/-- An undefined parameter of a completed circuit is found once. -/
theorem reportsOnce_complete (hground : c.connectedNodes.contains groundNode = true)
    (h : name ∈ (c.complete g).1.undefined) : c.ReportsOnce (c.complete g).2 name := by
  rw [complete_of_ground hground] at h ⊢
  have hundefined : name ∈ (c.completed g).undefined := h
  refine ⟨(c.completed g).firstUses[name]?, ?_, (c.completed g).place_firstUses name⟩
  dsimp only
  rw [List.filter_append, filter_undefinedFindings hundefined, filter_allDeclarationFindings,
    List.append_nil]

end FlatNet.Circuit

namespace FlatNet.Workspace

/-- The completion of a circuit with ground closes its parameters with those of the libraries, and
reports each one that stays undefined once. -/
theorem completion_closes_parameters (w : Workspace) (c : Circuit)
    (hground : c.connectedNodes.contains groundNode = true) :
    c.ClosedBy w.globals (w.complete c).2 ∧
      ∃ findings, (w.complete c).1.diagnostics.findings = w.diagnostics.findings ++ findings ∧
        ∀ name ∈ (w.complete c).2.undefined, c.ReportsOnce findings name := by
  refine ⟨Circuit.closedBy_complete hground, (c.complete w.globals).2, ?_, ?_⟩
  · exact Diagnostics.findings_recordAll _ _
  · exact fun name hname => Circuit.reportsOnce_complete hground hname

/-- A workspace with a temperature in the user library, and a thermal voltage and another
temperature in the built-in one. -/
def heated : Workspace :=
  { withBuiltin {}
      { Library.empty with
        params := ((∅ : NameMap Expr).insert "UT" (.binary .mul (.sym "k") (.sym "T"))).insert "T"
          (.sym "T0") } with
    user := { Library.empty with params := (∅ : NameMap Expr).insert "T" (.sym "Tc") } }

/-- A circuit of one element whose value contains the thermal voltage and a current. -/
def biased : Circuit :=
  { Circuit.titled "t" with
    elements := (∅ : NameMap Element).insert "R1"
      { refDes := "R1", device := .resistor, modelName := "R", binding := .primitive .resistor,
        nodes := ["1", "0"], refs := [],
        params := (∅ : NameMap Expr).insert "value" (.binary .div (.sym "UT") (.sym "IB")),
        origin := ⟨"main.cir", 2, 1⟩ } }

/-- The library of the user comes before the built-in one, and only two names are in either. -/
theorem value?_heated :
    heated.globals.value? "UT" = some (.binary .mul (.sym "k") (.sym "T")) ∧
      heated.globals.value? "T" = some (.sym "Tc") ∧
      ∀ name, heated.globals.contains name = true → name = "UT" ∨ name = "T" := by
  refine ⟨rfl, rfl, fun name h => ?_⟩
  obtain ⟨value, hvalue⟩ := Option.isSome_iff_exists.1 h
  rcases Option.or_eq_some_iff.1 hvalue with huser | ⟨-, hbuiltin⟩
  · rcases NameMap.getElem?_of_insert huser with ⟨rfl, -⟩ | hnone
    · exact .inr rfl
    · exact absurd hnone (by simp)
  · rcases NameMap.getElem?_of_insert hbuiltin with ⟨rfl, -⟩ | hfirst
    · exact .inr rfl
    · rcases NameMap.getElem?_of_insert hfirst with ⟨rfl, -⟩ | hnone
      · exact .inl rfl
      · exact absurd hnone (by simp)

/-- The circuit uses the thermal voltage and the current. -/
theorem uses_biased : biased.Uses "UT" ∧ biased.Uses "IB" :=
  ⟨Circuit.mem_usedSymbols.1 (Std.ExtTreeSet.mem_toList.1 (by decide +kernel)),
    Circuit.mem_usedSymbols.1 (Std.ExtTreeSet.mem_toList.1 (by decide +kernel))⟩

/-- In the completed circuit the thermal voltage is defined, which it uses, and the temperature of
the user library, which the thermal voltage uses, and nothing else; the current stays undefined. -/
theorem completion_closes_parameters_heated :
    biased.connectedNodes.contains groundNode = true ∧
      (heated.complete biased).2.params["UT"]? = some (.binary .mul (.sym "k") (.sym "T")) ∧
      (heated.complete biased).2.params["T"]? = some (.sym "Tc") ∧
      (∀ name, (heated.complete biased).2.params.contains name = true → name = "UT" ∨ name = "T") ∧
      "IB" ∈ (heated.complete biased).2.undefined ∧
      ∃ findings,
        (heated.complete biased).1.diagnostics.findings =
          heated.diagnostics.findings ++ findings ∧ biased.ReportsOnce findings "IB" := by
  have hground : biased.connectedNodes.contains groundNode = true := by decide +kernel
  obtain ⟨hclosed, findings, hfindings, honce⟩ := completion_closes_parameters heated biased hground
  obtain ⟨hvoltage, htemperature, honly⟩ := value?_heated
  obtain ⟨husesVoltage, husesCurrent⟩ := uses_biased
  have hnew : ∀ name, biased.params.contains name = false := fun _ => rfl
  have hadded : ∀ name value, heated.globals.value? name = some value →
      (∃ used, biased.Uses used ∧ Relation.ReflTransGen (heated.globals.Leads biased.params) used
        name) → (heated.complete biased).2.params[name]? = some value := by
    intro name value hvalue hreaches
    have hglobal : heated.globals.contains name = true := Option.isSome_of_eq_some hvalue
    obtain ⟨other, hother⟩ :=
      NameMap.contains_iff.1 ((hclosed.reached name (hnew name)).2 ⟨hglobal, hreaches⟩)
    rw [hother, ← hclosed.added name other (hnew name) hother, hvalue]
  have hleads : heated.globals.Leads biased.params "UT" "T" :=
    ⟨hnew "UT", _, hvoltage, Std.ExtTreeSet.mem_toList.1 (by decide +kernel)⟩
  have hdefined : ∀ name, (heated.complete biased).2.params.contains name = true →
      name = "UT" ∨ name = "T" :=
    fun name h => honly name ((hclosed.reached name (hnew name)).1 h).1
  have hundefined : "IB" ∈ (heated.complete biased).2.undefined := by
    refine (hclosed.undefined "IB").2 ⟨⟨husesCurrent.1, ?_⟩, Bool.eq_false_iff.2 fun h => ?_⟩
    · rw [hclosed.elements]
      rcases husesCurrent.2 with helement | ⟨k, v, hk, -⟩
      · exact .inl helement
      · exact absurd hk (by simp [biased, Circuit.titled])
    · exact absurd (hdefined "IB" h) (by decide)
  exact ⟨hground, hadded "UT" _ hvoltage ⟨"UT", husesVoltage, .refl⟩,
    hadded "T" _ htemperature ⟨"UT", husesVoltage, .single hleads⟩, hdefined, hundefined, findings,
    hfindings, honce "IB" hundefined⟩

end FlatNet.Workspace
