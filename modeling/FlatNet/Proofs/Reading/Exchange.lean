import FlatNet.Proofs.NameMap
import FlatNet.Proofs.Reading.Block

/-!
# Lines in another order

An element line, a line of parameters and a line of a named model make an entry in the innermost
open definition: they put something under names and report what is wrong with them.  Of what is
there already an entry depends only through the question whether its name is taken.  So lines that
define different names make the same entries in any order, and only the order of the diagnostics
tells which of them came first.
-/

set_option autoImplicit false

namespace FlatNet

/-! ## Rows of insertions -/

namespace NameMap

variable {α : Type} {m m' : NameMap α} {entries entries' : List (String × α)} {name : String}

/-- The map with entries inserted one after another. -/
def insertAll (m : NameMap α) (entries : List (String × α)) : NameMap α :=
  entries.foldl (fun m entry => m.insert entry.1 entry.2) m

/-- Two lists of entries are inserted one after the other. -/
theorem insertAll_append (m : NameMap α) (entries entries' : List (String × α)) :
    m.insertAll (entries ++ entries') = (m.insertAll entries).insertAll entries' :=
  List.foldl_append

/-- Under a name that is not inserted nothing changes. -/
theorem getElem?_insertAll_of_not_mem (h : name ∉ entries.map Prod.fst) :
    (m.insertAll entries)[name]? = m[name]? := by
  induction entries generalizing m with
  | nil => rfl
  | cons entry rest ih =>
    rw [List.map_cons, List.mem_cons, not_or] at h
    show (insertAll (m.insert entry.1 entry.2) rest)[name]? = _
    rw [ih h.2, getElem?_insert_of_ne (Ne.symm h.1)]

/-- What is found after insertions depends only on what was found under the same name before. -/
theorem getElem?_insertAll_congr (h : m[name]? = m'[name]?) :
    (m.insertAll entries)[name]? = (m'.insertAll entries)[name]? := by
  induction entries generalizing m m' with
  | nil => exact h
  | cons entry rest ih =>
    refine ih ?_
    rw [Std.ExtTreeMap.getElem?_insert, Std.ExtTreeMap.getElem?_insert, h]

/-- Insertions under different names can be made in either order. -/
theorem insertAll_comm
    (h : ∀ name ∈ entries.map Prod.fst, name ∉ entries'.map Prod.fst) :
    (m.insertAll entries).insertAll entries' = (m.insertAll entries').insertAll entries := by
  refine Std.ExtTreeMap.ext_getElem? fun name => ?_
  by_cases hname : name ∈ entries.map Prod.fst
  · rw [getElem?_insertAll_of_not_mem (h name hname)]
    exact getElem?_insertAll_congr (getElem?_insertAll_of_not_mem (h name hname)).symm
  · rw [getElem?_insertAll_of_not_mem hname]
    exact getElem?_insertAll_congr (getElem?_insertAll_of_not_mem hname)

end NameMap

/-! ## Entries -/

/-- What a line puts into the innermost open definition, and what it reports. -/
structure Entry where
  params : List (String × Expr) := []
  models : List (String × ModelCard) := []
  elements : List (String × Element) := []
  findings : List Finding := []

namespace Entry

variable {e e' : Entry}

instance : Append Entry where
  append e e' :=
    ⟨e.params ++ e'.params, e.models ++ e'.models, e.elements ++ e'.elements,
      e.findings ++ e'.findings⟩

/-- The definition with the entry made. -/
def enter (e : Entry) (d : Definition) : Definition :=
  { d with
    params := d.params.insertAll e.params
    models := d.models.insertAll e.models
    elements := d.elements.insertAll e.elements
    errors := d.errors + errorCount e.findings }

/-- The entries are made under different names. -/
structure Apart (e e' : Entry) : Prop where
  params : ∀ name ∈ e.params.map Prod.fst, name ∉ e'.params.map Prod.fst
  models : ∀ name ∈ e.models.map Prod.fst, name ∉ e'.models.map Prod.fst
  elements : ∀ name ∈ e.elements.map Prod.fst, name ∉ e'.elements.map Prod.fst

/-- The entry is made under names that are among these. -/
structure Under (e : Entry) (elements params models : List String) : Prop where
  elements : e.elements.map Prod.fst ⊆ elements
  params : e.params.map Prod.fst ⊆ params
  models : e.models.map Prod.fst ⊆ models

/-- An entry that only reports something is made under no name. -/
theorem under_findings (fs : List Finding) (elements params models : List String) :
    Under { findings := fs } elements params models :=
  ⟨List.nil_subset _, List.nil_subset _, List.nil_subset _⟩

/-- Two entries are made one after the other. -/
theorem enter_append (e e' : Entry) (d : Definition) :
    (e ++ e').enter d = e'.enter (e.enter d) := by
  have herrors : d.errors + errorCount (e.findings ++ e'.findings) =
      d.errors + errorCount e.findings + errorCount e'.findings := by
    unfold errorCount
    rw [List.countP_append, Nat.add_assoc]
  show { d with
    params := d.params.insertAll (e.params ++ e'.params)
    models := d.models.insertAll (e.models ++ e'.models)
    elements := d.elements.insertAll (e.elements ++ e'.elements)
    errors := d.errors + errorCount (e.findings ++ e'.findings) } = _
  rw [NameMap.insertAll_append, NameMap.insertAll_append, NameMap.insertAll_append, herrors]
  rfl

/-- Entries under different names can be made in either order. -/
theorem enter_comm (h : e.Apart e') (d : Definition) :
    e'.enter (e.enter d) = e.enter (e'.enter d) := by
  show { d with
    params := (d.params.insertAll e.params).insertAll e'.params
    models := (d.models.insertAll e.models).insertAll e'.models
    elements := (d.elements.insertAll e.elements).insertAll e'.elements
    errors := d.errors + errorCount e.findings + errorCount e'.findings } = _
  rw [NameMap.insertAll_comm h.params, NameMap.insertAll_comm h.models,
    NameMap.insertAll_comm h.elements, Nat.add_right_comm]
  rfl

end Entry

/-- The name and the value of a parameter definition. -/
def Token.paramDef? (t : Token) : Option (String × Expr) :=
  match t.kind with
  | .paramDef name value => some (name, value)
  | _ => none

namespace Line

/-- A list of parameters is the definitions among its tokens, and a finding for each other one. -/
theorem readParams_eq (file what : String) (params : NameMap Expr) (tokens : List Token) :
    readParams file what params tokens =
      ⟨params.insertAll (tokens.filterMap Token.paramDef?),
        (tokens.filter fun t => !t.isParamDef).map (unexpected file what)⟩ := by
  have hfold : ∀ l : ParamList, tokens.foldl (ParamList.take file what) l =
      ⟨l.params.insertAll (tokens.filterMap Token.paramDef?),
        l.findings ++ (tokens.filter fun t => !t.isParamDef).map (unexpected file what)⟩ := by
    induction tokens with
    | nil =>
      intro l
      rw [List.filter_nil, List.map_nil, List.append_nil]
      rfl
    | cons t rest ih =>
      intro l
      rw [List.foldl_cons, ih, List.filterMap_cons, List.filter_cons]
      unfold ParamList.take Token.paramDef? Token.isParamDef
      cases t.kind <;>
        simp only [Bool.not_false, Bool.not_true, Bool.false_eq_true, if_true, if_false,
          List.map_cons, List.append_assoc, List.singleton_append]
      rfl
  exact hfold ⟨params, []⟩

section Entries

variable (src : Source) (d : Definition) (command : Token) (args : List Token)

/-- The entry of a line of parameter definitions. -/
def paramEntry : Entry :=
  if args.isEmpty then
    { findings :=
        [findingAt src.file command (.malformedCommand "param" "no parameter definitions")] }
  else
    { params := args.filterMap Token.paramDef?
      findings := (args.filter fun t => !t.isParamDef).map
        (unexpected src.file "parameter definition") }

/-- The entry of a line that defines a named model. -/
def modelEntry : Entry :=
  match readCard? src.file args with
  | none =>
    { findings := [findingAt src.file command
        (.malformedCommand "model" "expected '.model <name> <type> [params]'")] }
  | some (head, card, findings) =>
    if d.models.contains card.name then
      { findings := findings ++ [findingAt src.file head (.duplicateModel card.name)] }
    else { models := [(card.name, card)], findings }

/-- The entry of an element line. -/
def elementEntry (head : Token) (tokens : List Token) : Entry :=
  match Device.ofRefDes? head.text with
  | none => { findings := [findingAt src.file head (.unknownDevice head.text)] }
  | some device =>
    match readElement src.file head device tokens with
    | .error finding => { findings := [finding] }
    | .ok line =>
      if d.elements.contains head.text then
        { findings :=
            line.findings ++ [findingAt src.file head (.duplicateElement head.text)] }
      else { elements := [(head.text, line.element)], findings := line.findings }

/-- The entry that a line makes in a definition. -/
def entry : List Token → Entry
  | [] => {}
  | first :: rest =>
    if first.isIdentifier then elementEntry src d first rest
    else if first.text = ".param" then paramEntry src first rest
    else modelEntry src d first rest

end Entries

/-- The line makes an entry: it is an element line, a line of parameters or a line of a model. -/
def IsEntry : List Token → Prop
  | [] => False
  | first :: _ =>
    first.isIdentifier = true ∨
      first.isCommand = true ∧ (first.text = ".param" ∨ first.text = ".model")

instance (line : List Token) : Decidable (IsEntry line) :=
  match line with
  | [] => inferInstanceAs (Decidable False)
  | first :: _ =>
    inferInstanceAs (Decidable (first.isIdentifier = true ∨
      first.isCommand = true ∧ (first.text = ".param" ∨ first.text = ".model")))

/-- The name of an element, if its line can be read. -/
def elementName? (file : String) (head : Token) (tokens : List Token) : Option String :=
  match Device.ofRefDes? head.text with
  | none => none
  | some device =>
    match readElement file head device tokens with
    | .error _ => none
    | .ok _ => some head.text

/-- The name of a model, if its line can be read. -/
def modelName? (file : String) (args : List Token) : Option String :=
  match readCard? file args with
  | none => none
  | some (_, card, _) => some card.name

/-- The names of elements that a line defines. -/
def elementNames (file : String) : List Token → List String
  | [] => []
  | head :: tokens => if head.isIdentifier then (elementName? file head tokens).toList else []

/-- The names of parameters that a line defines. -/
def paramNames : List Token → List String
  | [] => []
  | command :: args =>
    if command.isCommand && command.text == ".param" then
      (args.filterMap Token.paramDef?).map Prod.fst
    else []

/-- The names of models that a line defines. -/
def modelNames (file : String) : List Token → List String
  | [] => []
  | command :: args =>
    if command.isCommand && command.text == ".model" then (modelName? file args).toList else []

/-- The lines define different names. -/
structure Apart (file : String) (line line' : List Token) : Prop where
  elements : ∀ name ∈ elementNames file line, name ∉ elementNames file line'
  params : ∀ name ∈ paramNames line, name ∉ paramNames line'
  models : ∀ name ∈ modelNames file line, name ∉ modelNames file line'

/-- Lines define different names whichever is taken first. -/
theorem Apart.symm {file : String} {line line' : List Token} (h : Apart file line line') :
    Apart file line' line where
  elements name hname' hname := h.elements name hname hname'
  params name hname' hname := h.params name hname hname'
  models name hname' hname := h.models name hname hname'

/-! ## Which names an entry is made under -/

section Names

variable {src : Source} {d d' : Definition} {line line' : List Token} {first : Token}
  {rest : List Token}

/-- A line that begins with an identifier defines the element of that name, if it can be read. -/
theorem elementNames_of_isIdentifier (h : first.isIdentifier = true) (file : String) :
    elementNames file (first :: rest) = (elementName? file first rest).toList :=
  if_pos h

/-- A line of parameters defines their names. -/
theorem paramNames_of_isCommand (h : first.isCommand = true) (htext : first.text = ".param") :
    paramNames (first :: rest) = (rest.filterMap Token.paramDef?).map Prod.fst :=
  if_pos (by rw [h, htext]; rfl)

/-- A line of a model defines its name, if it can be read. -/
theorem modelNames_of_isCommand (h : first.isCommand = true) (htext : first.text = ".model")
    (file : String) : modelNames file (first :: rest) = (modelName? file rest).toList :=
  if_pos (by rw [h, htext]; rfl)

/-- An identifier is no command. -/
theorem isCommand_of_isIdentifier {t : Token} (h : t.isIdentifier = true) :
    t.isCommand = false := by
  unfold Token.isIdentifier at h
  unfold Token.isCommand
  split at h
  · rename_i hkind
    rw [hkind]
  · exact absurd h (by simp)

/-- Of the definition that it is made in, the entry of an element depends on whether its name is
taken. -/
theorem elementEntry_congr (head : Token) (tokens : List Token)
    (h : ∀ name ∈ (elementName? src.file head tokens).toList,
      d.elements.contains name = d'.elements.contains name) :
    elementEntry src d head tokens = elementEntry src d' head tokens := by
  unfold elementName? at h
  unfold elementEntry
  cases hdevice : Device.ofRefDes? head.text with
  | none => rfl
  | some device =>
    rw [hdevice] at h
    dsimp only at h ⊢
    cases hread : readElement src.file head device tokens with
    | error finding => rfl
    | ok line =>
      rw [hread] at h
      dsimp only
      rw [h head.text (List.mem_singleton.mpr rfl)]

/-- Of the definition that it is made in, the entry of a model depends on whether its name is
taken. -/
theorem modelEntry_congr (command : Token) (args : List Token)
    (h : ∀ name ∈ (modelName? src.file args).toList,
      d.models.contains name = d'.models.contains name) :
    modelEntry src d command args = modelEntry src d' command args := by
  unfold modelName? at h
  unfold modelEntry
  cases hcard : readCard? src.file args with
  | none => rfl
  | some read =>
    obtain ⟨head, card, findings⟩ := read
    rw [hcard] at h
    dsimp only
    rw [h card.name (List.mem_singleton.mpr rfl)]

/-- Of what is there already, an entry depends only on which of its names are taken. -/
theorem entry_congr (h : IsEntry line)
    (helements : ∀ name ∈ elementNames src.file line,
      d.elements.contains name = d'.elements.contains name)
    (hmodels : ∀ name ∈ modelNames src.file line,
      d.models.contains name = d'.models.contains name) :
    entry src d line = entry src d' line := by
  cases line with
  | nil => rfl
  | cons first rest =>
    unfold entry
    dsimp only
    by_cases hfirst : first.isIdentifier = true
    · rw [elementNames_of_isIdentifier hfirst] at helements
      rw [if_pos hfirst, if_pos hfirst, elementEntry_congr first rest helements]
    · obtain ⟨hcommand, hkeyword⟩ := h.resolve_left hfirst
      rw [if_neg hfirst, if_neg hfirst]
      by_cases hparam : first.text = ".param"
      · rw [if_pos hparam, if_pos hparam]
      · rw [modelNames_of_isCommand hcommand (hkeyword.resolve_left hparam)] at hmodels
        rw [if_neg hparam, if_neg hparam, modelEntry_congr first rest hmodels]

/-- The entry of an element is made under its name. -/
theorem under_elementEntry (src : Source) (d : Definition) (head : Token) (tokens : List Token)
    (params models : List String) :
    (elementEntry src d head tokens).Under (elementName? src.file head tokens).toList params
      models := by
  unfold elementName? elementEntry
  cases Device.ofRefDes? head.text with
  | none => exact Entry.under_findings _ _ _ _
  | some device =>
    dsimp only
    cases readElement src.file head device tokens with
    | error finding => exact Entry.under_findings _ _ _ _
    | ok line =>
      dsimp only
      split
      · exact Entry.under_findings _ _ _ _
      · exact ⟨List.Subset.refl _, List.nil_subset _, List.nil_subset _⟩

/-- The entry of parameters is made under their names. -/
theorem under_paramEntry (src : Source) (command : Token) (args : List Token)
    (elements models : List String) :
    (paramEntry src command args).Under elements ((args.filterMap Token.paramDef?).map Prod.fst)
      models := by
  unfold paramEntry
  split
  · exact Entry.under_findings _ _ _ _
  · exact ⟨List.nil_subset _, List.Subset.refl _, List.nil_subset _⟩

/-- The entry of a model is made under its name. -/
theorem under_modelEntry (src : Source) (d : Definition) (command : Token) (args : List Token)
    (elements params : List String) :
    (modelEntry src d command args).Under elements params (modelName? src.file args).toList := by
  unfold modelName? modelEntry
  cases readCard? src.file args with
  | none => exact Entry.under_findings _ _ _ _
  | some read =>
    obtain ⟨head, card, findings⟩ := read
    dsimp only
    split
    · exact Entry.under_findings _ _ _ _
    · exact ⟨List.nil_subset _, List.nil_subset _, List.Subset.refl _⟩

/-- An entry is made under names that its line defines. -/
theorem under_entry (src : Source) (d : Definition) (h : IsEntry line) :
    (entry src d line).Under (elementNames src.file line) (paramNames line)
      (modelNames src.file line) := by
  cases line with
  | nil => exact absurd h (by simp [IsEntry])
  | cons first rest =>
    unfold entry
    dsimp only
    by_cases hfirst : first.isIdentifier = true
    · rw [if_pos hfirst, elementNames_of_isIdentifier hfirst]
      exact under_elementEntry src d first rest _ _
    · obtain ⟨hcommand, hkeyword⟩ := h.resolve_left hfirst
      rw [if_neg hfirst]
      by_cases hparam : first.text = ".param"
      · rw [if_pos hparam, paramNames_of_isCommand hcommand hparam]
        exact under_paramEntry src first rest _ _
      · rw [if_neg hparam, modelNames_of_isCommand hcommand (hkeyword.resolve_left hparam)]
        exact under_modelEntry src d first rest _ _

/-- Lines that define different names make entries under different names. -/
theorem apart_entry (h : IsEntry line) (h' : IsEntry line') (src : Source)
    (hapart : Apart src.file line line') (d d' : Definition) :
    (entry src d line).Apart (entry src d' line') := by
  obtain ⟨helements, hparams, hmodels⟩ := under_entry src d h
  obtain ⟨helements', hparams', hmodels'⟩ := under_entry src d' h'
  constructor
  · exact fun name hname hname' => hapart.params name (hparams hname) (hparams' hname')
  · exact fun name hname hname' => hapart.models name (hmodels hname) (hmodels' hname')
  · exact fun name hname hname' => hapart.elements name (helements hname) (helements' hname')

/-- A line makes the same entry behind a line that defines other names. -/
theorem entry_enter (h : IsEntry line) (h' : IsEntry line') (src : Source)
    (hapart : Apart src.file line line') (d : Definition) :
    entry src ((entry src d line).enter d) line' = entry src d line' := by
  obtain ⟨helements, -, hmodels⟩ := under_entry src d h
  refine entry_congr h' (fun name hname => ?_) fun name hname => ?_
  · rw [Std.ExtTreeMap.contains_eq_isSome_getElem?, Std.ExtTreeMap.contains_eq_isSome_getElem?]
    refine congrArg Option.isSome (NameMap.getElem?_insertAll_of_not_mem fun hmem => ?_)
    exact hapart.elements name (helements hmem) hname
  · rw [Std.ExtTreeMap.contains_eq_isSome_getElem?, Std.ExtTreeMap.contains_eq_isSome_getElem?]
    refine congrArg Option.isSome (NameMap.getElem?_insertAll_of_not_mem fun hmem => ?_)
    exact hapart.models name (hmodels hmem) hname

end Names

end Line

/-! ## The diagnostics of an entry -/

namespace Diagnostics

/-- The diagnostic that a finding is recorded as. -/
def attach (d : Diagnostics) (f : Finding) : Diagnostic := ⟨f, f.origin.bind d.lineAt?⟩

/-- Recording adds one diagnostic for each finding and leaves the texts alone. -/
theorem recordAll_eq (d : Diagnostics) (fs : List Finding) :
    (d.recordAll fs).items.toList = d.items.toList ++ fs.map d.attach ∧
      (d.recordAll fs).sources = d.sources := by
  induction fs generalizing d with
  | nil => exact ⟨(List.append_nil _).symm, rfl⟩
  | cons f rest ih =>
    obtain ⟨hitems, hsources⟩ := ih (d.record f)
    refine ⟨?_, hsources⟩
    have hfirst : (d.record f).items.toList = d.items.toList ++ [d.attach f] :=
      Array.toList_push
    show ((d.record f).recordAll rest).items.toList = _
    rw [hitems, hfirst, List.append_assoc]
    rfl

end Diagnostics

namespace Reader

open Line (findingAt unexpected IsEntry Apart entry)

/-! ## Readers -/

/-- The reader with an entry made in the innermost open definition. -/
def enter (r : Reader) (e : Entry) : Reader :=
  { r with
    work := { r.work with
      diagnostics := r.work.diagnostics.recordAll e.findings
      opened := r.work.opened.modifyHead e.enter }
    errors := r.errors + errorCount e.findings }

section Enter

variable {src : Source} {load : Loader} {r : Reader} {line : List Token}

/-- Two entries are made by a reader one after the other. -/
theorem enter_append (r : Reader) (e e' : Entry) :
    r.enter (e ++ e') = (r.enter e).enter e' := by
  have hrecord : ∀ d : Diagnostics, d.recordAll (e ++ e').findings =
      (d.recordAll e.findings).recordAll e'.findings := fun _ => List.foldl_append
  have hopened : r.work.opened.modifyHead (e ++ e').enter =
      (r.work.opened.modifyHead e.enter).modifyHead e'.enter := by
    rw [List.modifyHead_modifyHead]
    exact congrArg (r.work.opened.modifyHead ·) (funext (Entry.enter_append e e'))
  have herrors : errorCount (e ++ e').findings =
      errorCount e.findings + errorCount e'.findings := List.countP_append
  unfold enter
  rw [hrecord, hopened, herrors, ← Nat.add_assoc]

/-- Reporting is an entry that puts nothing into the definition. -/
theorem report_eq_enter (r : Reader) (f : Finding) : r.report f = r.enter { findings := [f] } := by
  rw [report_eq]
  unfold enter errorCount
  rw [List.countP_cons, List.countP_nil, Nat.zero_add]
  cases hf : f.isError with
  | true =>
    have hcount : countError = Entry.enter { findings := [f] } := by
      funext d
      unfold countError Entry.enter errorCount
      rw [List.countP_cons, hf]
      rfl
    rw [if_pos rfl, if_pos rfl, hcount]
    rfl
  | false =>
    have hsame : Entry.enter { findings := [f] } = id := by
      funext d
      unfold Entry.enter errorCount
      rw [List.countP_cons, hf]
      rfl
    rw [if_neg (by simp), if_neg (by simp), hsame, List.modifyHead_id]
    rfl

/-- Findings are an entry that puts nothing into the definition. -/
theorem reportAll_eq_enter (r : Reader) (fs : List Finding) :
    r.reportAll fs = r.enter { findings := fs } := by
  induction fs generalizing r with
  | nil =>
    have hsame : Entry.enter { findings := [] } = id := rfl
    unfold enter
    rw [hsame, List.modifyHead_id]
    rfl
  | cons f rest ih =>
    show (r.report f).reportAll rest = r.enter ({ findings := [f] } ++ { findings := rest })
    rw [ih, report_eq_enter, enter_append]

/-- Only what becomes of the innermost open definition matters. -/
theorem modifyCurrent_congr {g g' : Definition → Definition} (h : g r.current = g' r.current) :
    r.modifyCurrent g = r.modifyCurrent g' := by
  unfold modifyCurrent
  unfold current at h
  cases hopened : r.work.opened with
  | nil => rfl
  | cons d around =>
    rw [hopened] at h
    have hd : g d = g' d := h
    dsimp only
    rw [hd]

/-- A change of the innermost open definition is an entry without findings. -/
theorem modifyCurrent_eq_enter {e : Entry} (h : e.findings = []) :
    r.modifyCurrent e.enter = r.enter e := by
  rw [modifyCurrent_eq]
  unfold enter
  rw [h]
  rfl

/-- An entry is made in the innermost definition, if one is open. -/
theorem current_enter (r : Reader) (e : Entry) :
    (r.enter e).current = if r.work.opened = [] then r.current else e.enter r.current := by
  unfold enter current
  dsimp only
  cases r.work.opened with
  | nil => rfl
  | cons d around => rfl

/-- Reading parameters is making their entry. -/
theorem readParam_eq_enter (command : Token) (args : List Token) :
    r.readParam src command args = r.enter (Line.paramEntry src command args) := by
  unfold readParam Line.paramEntry
  split
  · exact report_eq_enter _ _
  · rw [Line.readParams_eq]
    dsimp only
    have hchange : r.modifyCurrent (fun d => { d with
          params := r.current.params.insertAll (args.filterMap Token.paramDef?) }) =
        r.enter { params := args.filterMap Token.paramDef? } := by
      rw [← modifyCurrent_eq_enter rfl]
      exact modifyCurrent_congr rfl
    rw [hchange, reportAll_eq_enter, ← enter_append]
    show r.enter ⟨_ ++ [], [], [], _⟩ = _
    rw [List.append_nil]
    rfl

/-- Findings leave the names alone that the innermost open definition has. -/
theorem current_reportAll (fs : List Finding) :
    (r.reportAll fs).current.models = r.current.models ∧
      (r.reportAll fs).current.elements = r.current.elements := by
  rw [reportAll_eq_enter, current_enter]
  split <;> exact ⟨rfl, rfl⟩

/-- Reading a model is making its entry. -/
theorem readModel_eq_enter (command : Token) (args : List Token) :
    r.readModel src command args = r.enter (Line.modelEntry src r.current command args) := by
  unfold readModel Line.modelEntry
  cases Line.readCard? src.file args with
  | none => exact report_eq_enter _ _
  | some read =>
    obtain ⟨head, card, findings⟩ := read
    dsimp only
    rw [(current_reportAll findings).1]
    split
    · rw [reportAll_eq_enter, report_eq_enter, ← enter_append]
      rfl
    · have hchange : ∀ r : Reader, r.modifyCurrent (fun d => { d with
            models := d.models.insert card.name card }) =
          r.enter { models := [(card.name, card)] } := by
        intro r
        rw [← modifyCurrent_eq_enter rfl]
        rfl
      rw [hchange, reportAll_eq_enter, ← enter_append]
      show r.enter ⟨[], _, [], findings ++ []⟩ = _
      rw [List.append_nil]
      rfl

/-- Reading an element is making its entry. -/
theorem readElement_eq_enter (head : Token) (tokens : List Token) :
    r.readElement src head tokens = r.enter (Line.elementEntry src r.current head tokens) := by
  unfold readElement Line.elementEntry
  cases Device.ofRefDes? head.text with
  | none => exact report_eq_enter _ _
  | some device =>
    dsimp only
    cases Line.readElement src.file head device tokens with
    | error finding => exact report_eq_enter _ _
    | ok line =>
      dsimp only
      rw [(current_reportAll line.findings).2]
      split
      · rw [reportAll_eq_enter, report_eq_enter, ← enter_append]
        rfl
      · have hchange : ∀ r : Reader, r.modifyCurrent (fun d => { d with
              elements := d.elements.insert head.text line.element }) =
            r.enter { elements := [(head.text, line.element)] } := by
          intro r
          rw [← modifyCurrent_eq_enter rfl]
          rfl
        rw [hchange, reportAll_eq_enter, ← enter_append]
        show r.enter ⟨[], [], _, line.findings ++ []⟩ = _
        rw [List.append_nil]
        rfl

/-- A line of parameters or of a model makes its entry. -/
theorem readCommand_eq_enter {first : Token} {rest : List Token}
    (h : first.text = ".param" ∨ first.text = ".model") :
    r.readCommand src load first rest =
      r.enter (if first.text = ".param" then Line.paramEntry src first rest
        else Line.modelEntry src r.current first rest) := by
  unfold readCommand
  rcases h with h | h
  · rw [if_pos h, h]
    exact readParam_eq_enter first rest
  · rw [if_neg (by rw [h]; decide), h]
    exact readModel_eq_enter first rest

/-- A line of an element, of parameters or of a model makes its entry; a rejected sub-circuit is
skipped with such lines in it. -/
theorem readLine_eq_enter (load : Loader) (h : IsEntry line) :
    r.readLine src load line =
      if 0 < r.skipDepth then r else r.enter (entry src r.current line) := by
  cases line with
  | nil => exact absurd h (by simp [IsEntry])
  | cons first rest =>
    have hcommand (hfirst : first.isCommand = true) :
        ¬first.isIdentifier = true ∧ (first.text = ".param" ∨ first.text = ".model") := by
      have hidentifier : ¬first.isIdentifier = true := fun hidentifier =>
        absurd ((Line.isCommand_of_isIdentifier hidentifier).symm.trans hfirst) (by simp)
      exact ⟨hidentifier, (h.resolve_left hidentifier).2⟩
    unfold readLine
    dsimp only
    split
    · unfold skipLine
      split
      · rename_i hfirst
        rcases (hcommand hfirst).2 with htext | htext
        · rw [htext]
          rfl
        · rw [htext]
          rfl
      · rfl
    · unfold entry
      dsimp only
      by_cases hfirst : first.isCommand = true
      · rw [if_pos hfirst, if_neg (hcommand hfirst).1]
        exact readCommand_eq_enter (hcommand hfirst).2
      · have hidentifier : first.isIdentifier = true :=
          h.elim id fun hkeyword => absurd hkeyword.1 hfirst
        rw [if_neg hfirst, if_pos hidentifier, if_pos hidentifier]
        exact readElement_eq_enter first rest

end Enter

/-! ## Readers that differ in the order of their diagnostics -/

/-- The reader without the diagnostics that have been recorded. -/
def unrecorded (r : Reader) : Reader :=
  { r with
    work := { r.work with diagnostics := { r.work.diagnostics with items := #[] } } }

/-- The readers are the same, except that the same diagnostics may have been recorded in another
order. -/
structure SameUpToOrder (r r' : Reader) : Prop where
  unrecorded : r.unrecorded = r'.unrecorded
  items : r.work.diagnostics.items.toList.Perm r'.work.diagnostics.items.toList

section Order

variable {src : Source} {load : Loader} {r r' r'' : Reader} {e e' : Entry}
  {line line' : List Token} {lines lines' : List (List Token)}

/-- A reader is the same as itself. -/
theorem SameUpToOrder.refl (r : Reader) : r.SameUpToOrder r := ⟨rfl, .refl _⟩

/-- Two changes of the order are a change of the order. -/
theorem SameUpToOrder.trans (h : r.SameUpToOrder r') (h' : r'.SameUpToOrder r'') :
    r.SameUpToOrder r'' :=
  ⟨h.unrecorded.trans h'.unrecorded, h.items.trans h'.items⟩

/-- The same definitions are open, whatever the order of the diagnostics. -/
theorem SameUpToOrder.opened (h : r.SameUpToOrder r') : r.work.opened = r'.work.opened :=
  congrArg (·.work.opened) h.unrecorded

/-- The same sources are known, whatever the order of the diagnostics. -/
theorem SameUpToOrder.sources (h : r.SameUpToOrder r') :
    r.work.diagnostics.sources = r'.work.diagnostics.sources :=
  congrArg (·.work.diagnostics.sources) h.unrecorded

/-- What an entry changes besides the recorded diagnostics. -/
theorem unrecorded_enter (r : Reader) (e : Entry) :
    (r.enter e).unrecorded =
      { r.unrecorded with
        work := { r.unrecorded.work with opened := r.work.opened.modifyHead e.enter }
        errors := r.errors + errorCount e.findings } := by
  unfold enter unrecorded
  dsimp only
  rw [(Diagnostics.recordAll_eq r.work.diagnostics e.findings).2]

/-- An entry keeps the order of the diagnostics the only difference. -/
theorem SameUpToOrder.enter (h : r.SameUpToOrder r') (e : Entry) :
    (r.enter e).SameUpToOrder (r'.enter e) := by
  constructor
  · have herrors : r.errors = r'.errors := congrArg (·.errors) h.unrecorded
    rw [unrecorded_enter, unrecorded_enter, h.unrecorded, h.opened, herrors]
  · have hattach : r.work.diagnostics.attach = r'.work.diagnostics.attach := by
      funext f
      unfold Diagnostics.attach Diagnostics.lineAt?
      rw [h.sources]
    show (r.work.diagnostics.recordAll e.findings).items.toList.Perm
      (r'.work.diagnostics.recordAll e.findings).items.toList
    rw [(Diagnostics.recordAll_eq _ _).1, (Diagnostics.recordAll_eq _ _).1, hattach]
    exact h.items.append_right _

/-- A reader can make entries under different names in either order; only its diagnostics tell. -/
theorem enter_exchange (h : e.Apart e') (r : Reader) :
    ((r.enter e).enter e').SameUpToOrder ((r.enter e').enter e) := by
  rw [← enter_append, ← enter_append]
  have hfindings : (e ++ e').findings.Perm (e' ++ e).findings := List.perm_append_comm
  constructor
  · have hopened : (e ++ e').enter = (e' ++ e).enter := by
      funext d
      rw [Entry.enter_append, Entry.enter_append, Entry.enter_comm h]
    have herrors : errorCount (e ++ e').findings = errorCount (e' ++ e).findings :=
      hfindings.countP_eq _
    rw [unrecorded_enter, unrecorded_enter, hopened, herrors]
  · show (r.work.diagnostics.recordAll (e ++ e').findings).items.toList.Perm
      (r.work.diagnostics.recordAll (e' ++ e).findings).items.toList
    rw [(Diagnostics.recordAll_eq _ _).1, (Diagnostics.recordAll_eq _ _).1]
    exact (hfindings.map _).append_left _

/-- Two lines that define different names are read by making the entries of both, each as if it were
the first. -/
theorem readLine_readLine_eq_enter (h : IsEntry line) (h' : IsEntry line')
    (hapart : Apart src.file line line') :
    (r.readLine src load line).readLine src load line' =
      if 0 < r.skipDepth then r
      else (r.enter (entry src r.current line)).enter (entry src r.current line') := by
  rw [readLine_eq_enter load h]
  split
  · rename_i hskip
    rw [readLine_eq_enter load h', if_pos hskip]
  · rename_i hskip
    have hsame : entry src (r.enter (entry src r.current line)).current line' =
        entry src r.current line' := by
      rw [current_enter]
      split
      · rfl
      · exact Line.entry_enter h h' src hapart r.current
    rw [readLine_eq_enter load h', if_neg (show ¬0 < (r.enter _).skipDepth from hskip), hsame]

/-- Two lines that define different names can be read in either order: only the order of their
diagnostics tells which one came first. -/
theorem readLine_exchange (src : Source) (load : Loader) (r : Reader) (h : IsEntry line)
    (h' : IsEntry line') (hapart : Apart src.file line line') :
    ((r.readLine src load line).readLine src load line').SameUpToOrder
      ((r.readLine src load line').readLine src load line) := by
  rw [readLine_readLine_eq_enter h h' hapart, readLine_readLine_eq_enter h' h hapart.symm]
  split
  · exact .refl r
  · exact enter_exchange (Line.apart_entry h h' src hapart r.current r.current) r

/-- A resistor with a stray token behind its parameter, and a model with a stray token, read into
an open sub-circuit: each order of the lines records its own row of diagnostics. -/
theorem readLine_exchange_resistor_model :
    let resistor := lineOf "R1 a b rm value=2 stray"
    let model := lineOf ".model rm R noise=1 stray"
    let src : Source := ⟨"n.cir", .netlist⟩
    let load := Loading.loader Disk.empty 0
    IsEntry resistor ∧ IsEntry model ∧ Apart src.file resistor model ∧
      ((insideP.readLine src load resistor).readLine src load model).work.diagnostics.findings ≠
        ((insideP.readLine src load model).readLine src load resistor).work.diagnostics.findings ∧
      ((insideP.readLine src load resistor).readLine src load model).SameUpToOrder
        ((insideP.readLine src load model).readLine src load resistor) := by
  have hresistor : IsEntry (lineOf "R1 a b rm value=2 stray") := by decide +kernel
  have hmodel : IsEntry (lineOf ".model rm R noise=1 stray") := by decide +kernel
  have hapart : Apart "n.cir" (lineOf "R1 a b rm value=2 stray")
      (lineOf ".model rm R noise=1 stray") :=
    ⟨by decide +kernel, by decide +kernel, by decide +kernel⟩
  exact ⟨hresistor, hmodel, hapart, by decide +kernel,
    readLine_exchange _ _ insideP hresistor hmodel hapart⟩

/-- Reading a line keeps the order of the diagnostics the only difference. -/
theorem SameUpToOrder.readLine (hsame : r.SameUpToOrder r') (src : Source) (load : Loader)
    (h : IsEntry line) :
    (r.readLine src load line).SameUpToOrder (r'.readLine src load line) := by
  have hskip : r.skipDepth = r'.skipDepth := congrArg (·.skipDepth) hsame.unrecorded
  have hcurrent : r.current = r'.current := congrArg (·.headD default) hsame.opened
  rw [readLine_eq_enter load h, readLine_eq_enter load h, hskip, hcurrent]
  split
  · exact hsame
  · exact hsame.enter _

/-- Reading lines keeps the order of the diagnostics the only difference. -/
theorem SameUpToOrder.readLines (hsame : r.SameUpToOrder r') (src : Source) (load : Loader)
    (h : ∀ line ∈ lines, IsEntry line) :
    (readLines src load r lines).SameUpToOrder (readLines src load r' lines) := by
  induction lines generalizing r r' with
  | nil => exact hsame
  | cons line rest ih =>
    have hended : r.ended = r'.ended := congrArg (·.ended) hsame.unrecorded
    obtain ⟨hline, hrest⟩ := List.forall_mem_cons.mp h
    unfold Reader.readLines
    rw [hended]
    split
    · exact hsame
    · exact ih (hsame.readLine src load hline) hrest

/-- No line of an element, of parameters or of a model ends the text. -/
theorem ended_readLine (load : Loader) (h : IsEntry line) :
    (r.readLine src load line).ended = r.ended := by
  rw [readLine_eq_enter load h]
  split <;> rfl

/-- Lines that define different names can be read in any order. -/
theorem readLines_perm (src : Source) (load : Loader) (r : Reader)
    (hperm : lines.Perm lines') (h : ∀ line ∈ lines, IsEntry line)
    (hapart : lines.Pairwise (Apart src.file)) :
    (readLines src load r lines).SameUpToOrder (readLines src load r lines') := by
  cases hended : r.ended with
  | true =>
    rw [readLines_of_ended hended, readLines_of_ended hended]
    exact .refl r
  | false =>
    induction hperm generalizing r with
    | nil => exact .refl r
    | cons line _ ih =>
      obtain ⟨hline, hrest⟩ := List.forall_mem_cons.mp h
      rw [readLines_cons hended, readLines_cons hended]
      exact ih _ hrest (List.pairwise_cons.mp hapart).2
        ((ended_readLine load hline).trans hended)
    | swap line line' rest =>
      obtain ⟨hline', hline, hrest⟩ := by simpa using h
      have hpair : Apart src.file line' line :=
        (List.pairwise_cons.mp hapart).1 line List.mem_cons_self
      rw [readLines_cons hended, readLines_cons ((ended_readLine load hline').trans hended),
        readLines_cons hended, readLines_cons ((ended_readLine load hline).trans hended)]
      refine SameUpToOrder.readLines ?_ src load hrest
      rw [readLine_readLine_eq_enter hline' hline hpair,
        readLine_readLine_eq_enter hline hline' hpair.symm]
      split
      · exact .refl r
      · exact enter_exchange (Line.apart_entry hline' hline src hpair _ _) r
    | trans hperm _ ih ih' =>
      have hrest : ∀ line ∈ _, IsEntry line := fun line hline => h line (hperm.mem_iff.mpr hline)
      exact (ih r h hapart hended).trans
        (ih' r hrest (hperm.pairwise hapart Line.Apart.symm) hended)

end Order

end Reader

end FlatNet
