import FlatNet.Proofs.Reading.Line
import FlatNet.Reading.Source

/-!
# What a line does

A line is read by a row of actions: something is reported, the innermost definition is changed, a
definition is opened or closed, a library is loaded.  Which actions these are is decided by the line
and by what the reader sees of the definitions that are open, their errors apart; `readLine_eq` says
that reading the line is performing its actions.  `lineShape_actions` says what rows of actions
there are, so that whatever is said of all lines is said of these few rows.
-/

set_option autoImplicit false

namespace FlatNet

/-- The definition without the errors counted in it. -/
def Definition.uncounted (d : Definition) : Definition := { d with errors := 0 }

/-- What the first token of a line means for the nesting of sub-circuits. -/
inductive Bracket where
  /-- A sub-circuit begins. -/
  | opening
  /-- A sub-circuit ends. -/
  | closing
  /-- The text ends. -/
  | final
  /-- The nesting stays as it is. -/
  | plain
  deriving DecidableEq

/-- What a command means for the nesting of sub-circuits. -/
def Bracket.ofCommand (text : String) : Bracket :=
  match text with
  | ".subckt" => .opening
  | ".ends" => .closing
  | ".end" => .final
  | _ => .plain

/-- What the token means for the nesting of sub-circuits as the first one of its line. -/
def Token.bracket (t : Token) : Bracket :=
  if t.isCommand then Bracket.ofCommand t.text else .plain

/-- The bracket of a command is that of its text. -/
theorem Token.bracket_of_isCommand {t : Token} {text : String} (h : t.isCommand = true)
    (htext : t.text = text) : t.bracket = Bracket.ofCommand text := by
  unfold Token.bracket
  rw [if_pos h, htext]

/-- A line that begins with no command is plain. -/
theorem Token.bracket_of_isCommand_eq_false {t : Token} (h : t.isCommand = false) :
    t.bracket = .plain := by
  unfold Token.bracket
  rw [h]
  rfl

namespace Reader

open Line (findingAt unexpected originOf IsAt HasPlace isAt_findingAt)

/-- What a reader sees when it comes to a line. -/
structure View where
  /-- The open definitions, innermost first, without their errors. -/
  opened : List Definition
  skipDepth : Nat

namespace View

/-- The innermost open definition. -/
def current (v : View) : Definition := v.opened.headD default

end View

/-- What the reader sees. -/
def view (r : Reader) : View := ⟨r.work.opened.map Definition.uncounted, r.skipDepth⟩

/-- A step in reading a line. -/
inductive Action where
  | report (f : Finding)
  | change (g : Definition → Definition)
  | opens (d : Definition)
  | closes
  | load (t : Token)
  | skipTo (depth : Nat)
  | stop

/-- The reader after the library has been loaded that a token names. -/
def loaded (src : Source) (load : Loader) (r : Reader) (t : Token) : Reader :=
  match load src.libraryKind t.text r.work with
  | (work, none) => { r with work := work }
  | (work, some problem) => { r with work := work }.report (findingAt src.file t problem)

/-- The reader after an action. -/
def perform (src : Source) (load : Loader) (r : Reader) : Action → Reader
  | .report f => r.report f
  | .change g => r.modifyCurrent g
  | .opens d => r.push d
  | .closes => r.close
  | .load t => r.loaded src load t
  | .skipTo depth => { r with skipDepth := depth }
  | .stop => r.readEnd

/-- The reader after a row of actions. -/
def performAll (src : Source) (load : Loader) (r : Reader) (as : List Action) : Reader :=
  as.foldl (perform src load) r

/-! ## The actions of a line -/

section Actions

variable (src : Source) (v : View) (command : Token) (args : List Token)

/-- Rejects a sub-circuit. -/
def rejection (f : Finding) : List Action := [.report f, .skipTo 1]

/-- The definition that a sub-circuit line opens. -/
def opening (name : Token) (heading : Line.Heading) : Definition :=
  { Definition.blank name.text (Scope.child v.current.path name.text) name.text
      (some (originOf src.file command)) with
    nodes := heading.nodes
    formals := heading.formals }

/-- The actions of the heading of a sub-circuit. -/
def subcktActions : List Action :=
  match args with
  | [] => rejection
      (findingAt src.file command (.malformedCommand "subckt" "missing sub-circuit name"))
  | name :: rest =>
    if !name.isIdentifier then
      rejection (findingAt src.file command
        (.malformedCommand "subckt" "missing sub-circuit name"))
    else if v.opened.dropLast.any fun d => d.name == name.text then
      rejection (findingAt src.file name (.hierarchyLoop name.text))
    else
      .opens (opening src v command name (Line.readHeading src.file rest)) ::
        (Line.readHeading src.file rest).findings.map .report

/-- The actions of the end of a sub-circuit. -/
def endsActions : List Action :=
  if v.opened.length ≤ 1 then [.report (findingAt src.file command .unmatchedEnds)] else [.closes]

/-- The actions of a line of parameters. -/
def paramActions : List Action :=
  if args.isEmpty then
    [.report (findingAt src.file command (.malformedCommand "param" "no parameter definitions"))]
  else
    let list := Line.readParams src.file "parameter definition" v.current.params args
    .change (fun d => { d with params := list.params }) :: list.findings.map .report

/-- The actions of a model card. -/
def modelActions : List Action :=
  match Line.readCard? src.file args with
  | none =>
    [.report (findingAt src.file command
      (.malformedCommand "model" "expected '.model <name> <type> [params]'"))]
  | some (head, card, findings) =>
    findings.map .report ++
      [if v.current.models.contains card.name then
        .report (findingAt src.file head (.duplicateModel card.name))
      else .change fun d => { d with models := d.models.insert card.name card }]

/-- The actions of a name on a line that refers to libraries. -/
def libraryNameActions (t : Token) : List Action :=
  if !t.isLibraryName then [.report (unexpected src.file "library file name" t)]
  else [.change fun d => { d with libraries := d.libraries ++ [t.text] }, .load t]

/-- The actions of a line that refers to libraries. -/
def librariesActions : List Action :=
  if args.isEmpty then
    [.report (findingAt src.file command (.malformedCommand "lib" "missing library file name"))]
  else args.flatMap (libraryNameActions src)

/-- The action of a name on a declaring line. -/
def declarationAction (keyword : String) (t : Token) : Action :=
  if t.isNodeName then .change (declare keyword ⟨t.text, originOf src.file t⟩)
  else .report (unexpected src.file "identifier" t)

/-- The actions of a declaring line. -/
def declarationsActions (keyword : String) : List Action :=
  if args.isEmpty then
    [.report (findingAt src.file command (.malformedCommand keyword "missing identifier"))]
  else args.map (declarationAction src keyword)

/-- The actions of a line that begins with a command. -/
def commandActions : List Action :=
  match command.text with
  | ".subckt" => subcktActions src v command args
  | ".ends" => endsActions src v command
  | ".param" => paramActions src v command args
  | ".model" => modelActions src v command args
  | ".lib" | ".include" | ".inc" => librariesActions src command args
  | ".source" | ".detector" | ".lgref" =>
    declarationsActions src command args (commandName command)
  | ".end" => [.stop]
  | _ => [.report (findingAt src.file command (.unknownCommand (commandName command)))]

/-- The actions of the line of an element. -/
def elementActions (head : Token) (tokens : List Token) : List Action :=
  match Device.ofRefDes? head.text with
  | none => [.report (findingAt src.file head (.unknownDevice head.text))]
  | some device =>
    match Line.readElement src.file head device tokens with
    | .error finding => [.report finding]
    | .ok line =>
      line.findings.map .report ++
        [if v.current.elements.contains head.text then
          .report (findingAt src.file head (.duplicateElement head.text))
        else .change fun d => { d with elements := d.elements.insert head.text line.element }]

/-- The actions of a line in a rejected sub-circuit. -/
def skipActions (first : Token) : List Action :=
  if first.isCommand then
    match first.text with
    | ".subckt" => [.skipTo (v.skipDepth + 1)]
    | ".ends" => [.skipTo (v.skipDepth - 1)]
    | ".end" => [.stop]
    | _ => []
  else []

/-- The actions of a line. -/
def actions (line : List Token) : List Action :=
  match line with
  | [] => []
  | first :: rest =>
    if 0 < v.skipDepth then skipActions v first
    else if first.isCommand then commandActions src v first rest
    else if first.isIdentifier then elementActions src v first rest
    else [.report (unexpected src.file "token" first)]

end Actions

/-! ## Reading a line is performing its actions -/

section Performing

variable {src : Source} {load : Loader} {r : Reader}

/-- A reader sees the innermost definition without the errors counted in it. -/
theorem current_view (r : Reader) : r.view.current = r.current.uncounted := by
  unfold view View.current Reader.current
  cases r.work.opened with
  | nil => rfl
  | cons d around => rfl

/-- Actions are performed from the first one on. -/
theorem performAll_cons (a : Action) (as : List Action) :
    r.performAll src load (a :: as) = (r.perform src load a).performAll src load as := rfl

/-- Two rows of actions are performed one after the other. -/
theorem performAll_append (as as' : List Action) :
    r.performAll src load (as ++ as') =
      (r.performAll src load as).performAll src load as' := List.foldl_append

/-- Actions that report findings report them all. -/
theorem performAll_map_report (fs : List Finding) :
    r.performAll src load (fs.map .report) = r.reportAll fs := by
  unfold performAll reportAll
  rw [List.foldl_map]
  rfl

/-- Errors are no part of what a reader sees. -/
@[simp] theorem view_report (r : Reader) (f : Finding) : (r.report f).view = r.view := by
  unfold report modifyCurrent view Workspace.record
  dsimp only
  split
  · cases hopened : r.work.opened with
    | nil => rfl
    | cons d around => rfl
  · rfl

/-- Findings do not change what a reader sees. -/
@[simp] theorem view_reportAll (r : Reader) (fs : List Finding) :
    (r.reportAll fs).view = r.view := by
  induction fs generalizing r with
  | nil => rfl
  | cons f rest ih =>
    show ((r.report f).reportAll rest).view = r.view
    rw [ih, view_report]

/-- Reading the heading of a sub-circuit is performing its actions. -/
theorem performAll_subcktActions (command : Token) (args : List Token) :
    r.performAll src load (subcktActions src r.view command args) =
      r.readSubckt src command args := by
  unfold subcktActions readSubckt
  cases args with
  | nil => rfl
  | cons name rest =>
    have hopened : (r.view.opened.dropLast.any fun d => d.name == name.text) =
        r.work.opened.dropLast.any fun d => d.name == name.text := by
      unfold view
      rw [← List.map_dropLast, List.any_map]
      rfl
    have hpath : r.view.current.path = r.current.path := by rw [current_view]; rfl
    dsimp only
    rw [hopened]
    split
    · rfl
    · split
      · rfl
      · rw [performAll_cons, performAll_map_report]
        unfold opening
        rw [hpath]
        rfl

/-- Reading the end of a sub-circuit is performing its actions. -/
theorem performAll_endsActions (command : Token) :
    r.performAll src load (endsActions src r.view command) = r.readEnds src command := by
  unfold endsActions readEnds view
  rw [List.length_map]
  split <;> rfl

/-- Reading parameters is performing the actions of their line. -/
theorem performAll_paramActions (command : Token) (args : List Token) :
    r.performAll src load (paramActions src r.view command args) =
      r.readParam src command args := by
  have hparams : r.view.current.params = r.current.params := by rw [current_view]; rfl
  unfold paramActions readParam
  rw [hparams]
  split
  · rfl
  · rw [performAll_cons, performAll_map_report]
    rfl

/-- Reading a model card is performing its actions. -/
theorem performAll_modelActions (command : Token) (args : List Token) :
    r.performAll src load (modelActions src r.view command args) =
      r.readModel src command args := by
  unfold modelActions readModel
  cases Line.readCard? src.file args with
  | none => rfl
  | some read =>
    obtain ⟨head, card, findings⟩ := read
    -- findings about the parameters leave the models alone
    have hmodels : r.view.current.models = (r.reportAll findings).current.models := by
      rw [← view_reportAll r findings, current_view]
      rfl
    dsimp only
    rw [performAll_append, performAll_map_report, hmodels, performAll_cons]
    split <;> rfl

/-- Reading the name of a library is performing its actions. -/
theorem performAll_libraryNameActions (t : Token) :
    r.performAll src load (libraryNameActions src t) = readLibraryName src load r t := by
  unfold libraryNameActions readLibraryName
  split <;> rfl

/-- Reading a line that names libraries is performing the actions of the names one after another. -/
theorem performAll_librariesActions (command : Token) (args : List Token) :
    r.performAll src load (librariesActions src command args) =
      r.readLibraries src load command args := by
  unfold librariesActions readLibraries
  split
  · rfl
  · generalize args = names
    induction names generalizing r with
    | nil => rfl
    | cons t rest ih =>
      rw [List.flatMap_cons, performAll_append, performAll_libraryNameActions, ih, List.foldl_cons]

/-- Reading declarations is performing the actions of the names one after another. -/
theorem performAll_declarationsActions (keyword : String) (command : Token) (args : List Token) :
    r.performAll src load (declarationsActions src command args keyword) =
      r.readDeclarations src keyword command args := by
  unfold declarationsActions readDeclarations
  split
  · rfl
  · unfold performAll
    rw [List.foldl_map]
    congr 1
    funext r t
    unfold declarationAction readDeclaration
    split <;> rfl

/-- Reading a command is performing its actions. -/
theorem performAll_commandActions (command : Token) (args : List Token) :
    r.performAll src load (commandActions src r.view command args) =
      r.readCommand src load command args := by
  unfold commandActions readCommand
  generalize command.text = text
  split
  · exact performAll_subcktActions command args
  · exact performAll_endsActions command
  · exact performAll_paramActions command args
  · exact performAll_modelActions command args
  · exact performAll_librariesActions command args
  · exact performAll_librariesActions command args
  · exact performAll_librariesActions command args
  · exact performAll_declarationsActions _ command args
  · exact performAll_declarationsActions _ command args
  · exact performAll_declarationsActions _ command args
  · rfl
  · simp [performAll, perform, *]

/-- Reading the line of an element is performing its actions. -/
theorem performAll_elementActions (head : Token) (tokens : List Token) :
    r.performAll src load (elementActions src r.view head tokens) =
      r.readElement src head tokens := by
  unfold elementActions readElement
  cases Device.ofRefDes? head.text with
  | none => rfl
  | some device =>
    dsimp only
    cases Line.readElement src.file head device tokens with
    | error finding => rfl
    | ok line =>
      have helements : r.view.current.elements = (r.reportAll line.findings).current.elements := by
        rw [← view_reportAll r line.findings, current_view]
        rfl
      dsimp only
      rw [performAll_append, performAll_map_report, helements, performAll_cons]
      split <;> rfl

/-- Skipping a line is performing its actions, which keep count of the nesting. -/
theorem performAll_skipActions (first : Token) :
    r.performAll src load (skipActions r.view first) = r.skipLine first := by
  unfold skipActions skipLine
  generalize first.text = text
  split
  · split
    · rfl
    · rfl
    · rfl
    · simp [performAll, *]
  · rfl

/-- A line is read by performing its actions. -/
theorem readLine_eq (src : Source) (load : Loader) (r : Reader) (line : List Token) :
    r.readLine src load line = r.performAll src load (actions src r.view line) := by
  unfold readLine actions
  cases line with
  | nil => rfl
  | cons first rest =>
    dsimp only
    show _ = r.performAll src load (if 0 < r.skipDepth then _ else _)
    split
    · exact (performAll_skipActions first).symm
    · split
      · exact (performAll_commandActions first rest).symm
      · split
        · exact (performAll_elementActions first rest).symm
        · rfl

end Performing

/-! ## What rows of actions there are -/

/-- A change that a line may make to the innermost definition.  It keeps what is known from the
first line of the definition, has nothing to do with errors, and adds only elements that wait for
their binding, under their own names; what it adds stands in the line. -/
structure Mild (file : String) (line : List Token) (g : Definition → Definition) : Prop where
  name : ∀ d, (g d).name = d.name
  path : ∀ d, (g d).path = d.path
  nodes : ∀ d, (g d).nodes = d.nodes
  formals : ∀ d, (g d).formals = d.formals
  origin : ∀ d, (g d).origin = d.origin
  errors : ∀ d, (g d).errors = d.errors
  uncounted : ∀ d, (g d).uncounted = g d.uncounted
  elements : ∀ d, ∀ e ∈ (g d).elements.values,
    e ∈ d.elements.values ∨ e.isUnresolved = true ∧ HasPlace file line e.origin
  keyed : ∀ d, Keyed d.elements → Keyed (g d).elements
  models : ∀ d, ∀ card ∈ (g d).models.values,
    card ∈ d.models.values ∨ HasPlace file line card.origin

/-- An action that leaves the nesting of definitions alone. -/
inductive Action.Inner (file : String) (line : List Token) : Action → Prop
  | report {f : Finding} (hf : IsAt file line f) : Inner file line (.report f)
  | change {g : Definition → Definition} (hg : Mild file line g) : Inner file line (.change g)
  | load {t : Token} (ht : t ∈ line) : Inner file line (.load t)

/-- What the actions of a line may be, by the nesting of sub-circuits. -/
inductive LineShape (src : Source) (v : View) : List Token → List Action → Prop
  | blank : LineShape src v [] []
  /-- The nesting stays as it is. -/
  | inner {first : Token} {rest : List Token} {as : List Action} (hreads : v.skipDepth = 0)
      (hfirst : first.bracket = .plain)
      (has : ∀ a ∈ as, a.Inner src.file (first :: rest)) : LineShape src v (first :: rest) as
  /-- A sub-circuit is opened. -/
  | opens {first name : Token} {rest : List Token} (hreads : v.skipDepth = 0)
      (hfirst : first.bracket = .opening) (hname : name.isIdentifier = true)
      (hfresh : ∀ d ∈ v.opened.dropLast, d.name ≠ name.text) :
      LineShape src v (first :: name :: rest)
        (.opens (opening src v first name (Line.readHeading src.file rest)) ::
          (Line.readHeading src.file rest).findings.map .report)
  /-- A sub-circuit is rejected. -/
  | rejects {first : Token} {rest : List Token} {f : Finding} (hreads : v.skipDepth = 0)
      (hfirst : first.bracket = .opening) (hf : IsAt src.file (first :: rest) f) :
      LineShape src v (first :: rest) (rejection f)
  /-- A sub-circuit is closed. -/
  | closes {first : Token} {rest : List Token} (hreads : v.skipDepth = 0)
      (hfirst : first.bracket = .closing) (hdeep : 1 < v.opened.length) :
      LineShape src v (first :: rest) [.closes]
  /-- There is no sub-circuit to close. -/
  | unmatched {first : Token} {rest : List Token} {f : Finding} (hreads : v.skipDepth = 0)
      (hfirst : first.bracket = .closing) (hshallow : v.opened.length ≤ 1)
      (hf : IsAt src.file (first :: rest) f) : LineShape src v (first :: rest) [.report f]
  /-- The text ends. -/
  | stops {first : Token} {rest : List Token} (hfirst : first.bracket = .final) :
      LineShape src v (first :: rest) [.stop]
  /-- A rejected sub-circuit stays as deep as it is. -/
  | skips {first : Token} {rest : List Token} (hskips : 0 < v.skipDepth)
      (hfirst : first.bracket = .plain) : LineShape src v (first :: rest) []
  /-- A rejected sub-circuit has one inside. -/
  | deeper {first : Token} {rest : List Token} (hskips : 0 < v.skipDepth)
      (hfirst : first.bracket = .opening) :
      LineShape src v (first :: rest) [.skipTo (v.skipDepth + 1)]
  /-- A rejected sub-circuit, or one inside it, ends. -/
  | shallower {first : Token} {rest : List Token} (hskips : 0 < v.skipDepth)
      (hfirst : first.bracket = .closing) :
      LineShape src v (first :: rest) [.skipTo (v.skipDepth - 1)]

section Shape

variable {src : Source} {v : View} {line : List Token}

/-- Reporting findings in a line leaves the nesting of definitions alone. -/
theorem forall_inner_map_report {fs : List Finding} (h : ∀ f ∈ fs, IsAt src.file line f) :
    ∀ a ∈ fs.map Action.report, a.Inner src.file line := by
  intro a ha
  obtain ⟨f, hf, rfl⟩ := List.mem_map.1 ha
  exact .report (h f hf)

/-- A change of other things than elements and models. -/
theorem mild_of_eq {file : String} {g : Definition → Definition}
    (h : ∀ d, (g d).name = d.name ∧ (g d).path = d.path ∧ (g d).nodes = d.nodes ∧
      (g d).formals = d.formals ∧ (g d).origin = d.origin ∧ (g d).errors = d.errors ∧
      (g d).elements = d.elements ∧ (g d).models = d.models)
    (huncounted : ∀ d, (g d).uncounted = g d.uncounted) : Mild file line g where
  name d := (h d).1
  path d := (h d).2.1
  nodes d := (h d).2.2.1
  formals d := (h d).2.2.2.1
  origin d := (h d).2.2.2.2.1
  errors d := (h d).2.2.2.2.2.1
  uncounted := huncounted
  elements d _ he := .inl ((h d).2.2.2.2.2.2.1 ▸ he)
  keyed d hd := by
    rw [(h d).2.2.2.2.2.2.1]
    exact hd
  models d _ hcard := .inl ((h d).2.2.2.2.2.2.2 ▸ hcard)

/-- A declaration is a mild change. -/
theorem mild_declare (keyword : String) (declaration : Declaration) :
    Mild src.file line (declare keyword declaration) := by
  refine mild_of_eq (fun d => ?_) fun d => ?_
  · unfold declare
    split
    · exact ⟨rfl, rfl, rfl, rfl, rfl, rfl, rfl, rfl⟩
    · split <;> exact ⟨rfl, rfl, rfl, rfl, rfl, rfl, rfl, rfl⟩
  · unfold declare
    split
    · rfl
    · split <;> rfl

/-- Adding a model card is a mild change. -/
theorem mild_insert_model {name : String} {card : ModelCard}
    (h : HasPlace src.file line card.origin) :
    Mild src.file line fun d => { d with models := d.models.insert name card } where
  name _ := rfl
  path _ := rfl
  nodes _ := rfl
  formals _ := rfl
  origin _ := rfl
  errors _ := rfl
  uncounted _ := rfl
  elements _ _ he := .inl he
  keyed _ hd := hd
  models d other hother := by
    rcases NameMap.mem_values_insert hother with rfl | hother
    · exact .inr h
    · exact .inl hother

/-- Adding an element that waits for its binding, under its own name, is a mild change. -/
theorem mild_insert_element {e : Element} (hunresolved : e.isUnresolved = true)
    (h : HasPlace src.file line e.origin) :
    Mild src.file line fun d => { d with elements := d.elements.insert e.refDes e } where
  name _ := rfl
  path _ := rfl
  nodes _ := rfl
  formals _ := rfl
  origin _ := rfl
  errors _ := rfl
  uncounted _ := rfl
  elements d other hother := by
    rcases NameMap.mem_values_insert hother with rfl | hother
    · exact .inr ⟨hunresolved, h⟩
    · exact .inl hother
  keyed _ hd := hd.insert e
  models _ _ hcard := .inl hcard

/-- A heading that is refused rejects its sub-circuit. -/
theorem lineShape_rejection {first : Token} {rest : List Token} {t : Token} {problem : Problem}
    (hreads : v.skipDepth = 0) (hfirst : first.bracket = .opening) (ht : t ∈ first :: rest)
    (hclass : problem.problemClass = .structural) :
    LineShape src v (first :: rest) (rejection (findingAt src.file t problem)) :=
  .rejects hreads hfirst (isAt_findingAt ht hclass)

/-- The heading of a sub-circuit opens or rejects it. -/
theorem lineShape_subcktActions {command : Token} (args : List Token) (hreads : v.skipDepth = 0)
    (hfirst : command.bracket = .opening) :
    LineShape src v (command :: args) (subcktActions src v command args) := by
  unfold subcktActions
  split
  · exact lineShape_rejection hreads hfirst List.mem_cons_self rfl
  · rename_i name rest
    split
    · exact lineShape_rejection hreads hfirst List.mem_cons_self rfl
    · rename_i hname
      split
      · exact lineShape_rejection hreads hfirst
          (List.mem_cons_of_mem _ List.mem_cons_self) rfl
      · rename_i hfresh
        refine .opens hreads hfirst (by simpa using hname) fun d hd heq => hfresh ?_
        exact List.any_eq_true.2 ⟨d, hd, beq_iff_eq.2 heq⟩

/-- Parameters leave the nesting of definitions alone. -/
theorem inner_paramActions (command : Token) (args : List Token) :
    ∀ a ∈ paramActions src v command args, a.Inner src.file (command :: args) := by
  unfold paramActions
  split
  · exact List.forall_mem_singleton.2 (.report (isAt_findingAt List.mem_cons_self rfl))
  · refine List.forall_mem_cons.2 ⟨.change ?_, forall_inner_map_report fun f hf => ?_⟩
    · exact mild_of_eq (fun _ => ⟨rfl, rfl, rfl, rfl, rfl, rfl, rfl, rfl⟩) fun _ => rfl
    · exact (Line.isAt_readParams f hf).mono (List.subset_cons_self _ _)

/-- A model card leaves the nesting of definitions alone. -/
theorem inner_modelActions (command : Token) (args : List Token) :
    ∀ a ∈ modelActions src v command args, a.Inner src.file (command :: args) := by
  unfold modelActions
  split
  · exact List.forall_mem_singleton.2 (.report (isAt_findingAt List.mem_cons_self rfl))
  · rename_i head card findings hcard
    obtain ⟨hmem, horigin, hfindings⟩ := Line.hasPlace_readCard? hcard
    have hmem := List.mem_cons_of_mem command hmem
    refine List.forall_mem_append.2
      ⟨forall_inner_map_report fun f hf => (hfindings f hf).mono (List.subset_cons_self _ _), ?_⟩
    refine List.forall_mem_singleton.2 ?_
    split
    · exact .report (isAt_findingAt hmem rfl)
    · exact .change (mild_insert_model ⟨head, hmem, horigin⟩)

/-- Names of libraries leave the nesting of definitions alone. -/
theorem inner_librariesActions (command : Token) (args : List Token) :
    ∀ a ∈ librariesActions src command args, a.Inner src.file (command :: args) := by
  unfold librariesActions
  split
  · exact List.forall_mem_singleton.2 (.report (isAt_findingAt List.mem_cons_self rfl))
  · intro a ha
    obtain ⟨t, ht, ha⟩ := List.mem_flatMap.1 ha
    have hmem := List.mem_cons_of_mem command ht
    unfold libraryNameActions at ha
    split at ha
    · rw [List.mem_singleton.1 ha]
      exact .report (isAt_findingAt hmem rfl)
    · rcases List.mem_cons.1 ha with rfl | ha
      · refine .change ?_
        exact mild_of_eq (fun _ => ⟨rfl, rfl, rfl, rfl, rfl, rfl, rfl, rfl⟩) fun _ => rfl
      · rw [List.mem_singleton.1 ha]
        exact .load hmem

/-- Declarations leave the nesting of definitions alone. -/
theorem inner_declarationsActions (command : Token) (args : List Token) (keyword : String) :
    ∀ a ∈ declarationsActions src command args keyword, a.Inner src.file (command :: args) := by
  unfold declarationsActions
  split
  · exact List.forall_mem_singleton.2 (.report (isAt_findingAt List.mem_cons_self rfl))
  · intro a ha
    obtain ⟨t, ht, rfl⟩ := List.mem_map.1 ha
    unfold declarationAction
    split
    · exact .change (mild_declare _ _)
    · exact .report (isAt_findingAt (List.mem_cons_of_mem command ht) rfl)

/-- The line of an element leaves the nesting of definitions alone. -/
theorem inner_elementActions (head : Token) (tokens : List Token) :
    ∀ a ∈ elementActions src v head tokens, a.Inner src.file (head :: tokens) := by
  have hhead : head ∈ head :: tokens := List.mem_cons_self
  unfold elementActions
  split
  · exact List.forall_mem_singleton.2 (.report (isAt_findingAt hhead rfl))
  · rename_i device _
    have hline := Line.yields_readElement src.file head device tokens
    split
    · rename_i f hf
      rw [hf] at hline
      exact List.forall_mem_singleton.2 (.report hline)
    · rename_i line hread
      have hname := (Line.reads_readElement hread).refDes
      rw [hread] at hline
      obtain ⟨hwaits, hfindings⟩ := hline
      refine List.forall_mem_append.2 ⟨forall_inner_map_report hfindings, ?_⟩
      refine List.forall_mem_singleton.2 ?_
      split
      · exact .report (isAt_findingAt hhead rfl)
      · rw [← hname]
        exact .change (mild_insert_element hwaits.unresolved ⟨head, hhead, hwaits.origin⟩)

/-- The actions of a command are of the shape that its bracket says. -/
theorem lineShape_commandActions {command : Token} (args : List Token)
    (hreads : v.skipDepth = 0) (hcommand : command.isCommand = true) :
    LineShape src v (command :: args) (commandActions src v command args) := by
  have hhead : command ∈ command :: args := List.mem_cons_self
  unfold commandActions
  split <;> rename_i htext
  · exact lineShape_subcktActions args hreads (Token.bracket_of_isCommand hcommand htext)
  · have hfirst : command.bracket = .closing := Token.bracket_of_isCommand hcommand htext
    unfold endsActions
    split
    · exact .unmatched hreads hfirst ‹_› (isAt_findingAt hhead rfl)
    · exact .closes hreads hfirst (by omega)
  · exact .inner hreads (Token.bracket_of_isCommand hcommand htext)
      (inner_paramActions command args)
  · exact .inner hreads (Token.bracket_of_isCommand hcommand htext)
      (inner_modelActions command args)
  · exact .inner hreads (Token.bracket_of_isCommand hcommand htext)
      (inner_librariesActions command args)
  · exact .inner hreads (Token.bracket_of_isCommand hcommand htext)
      (inner_librariesActions command args)
  · exact .inner hreads (Token.bracket_of_isCommand hcommand htext)
      (inner_librariesActions command args)
  · exact .inner hreads (Token.bracket_of_isCommand hcommand htext)
      (inner_declarationsActions command args _)
  · exact .inner hreads (Token.bracket_of_isCommand hcommand htext)
      (inner_declarationsActions command args _)
  · exact .inner hreads (Token.bracket_of_isCommand hcommand htext)
      (inner_declarationsActions command args _)
  · exact .stops (Token.bracket_of_isCommand hcommand htext)
  · refine .inner hreads ?_ (List.forall_mem_singleton.2 (.report (isAt_findingAt hhead rfl)))
    rw [Token.bracket_of_isCommand hcommand rfl]
    unfold Bracket.ofCommand
    split <;> first | contradiction | rfl

/-- A line in a rejected sub-circuit is counted, and nothing else. -/
theorem lineShape_skipActions {first : Token} (rest : List Token) (hskips : 0 < v.skipDepth) :
    LineShape src v (first :: rest) (skipActions v first) := by
  unfold skipActions
  split
  · rename_i hcommand
    split <;> rename_i htext
    · exact .deeper hskips (Token.bracket_of_isCommand hcommand htext)
    · exact .shallower hskips (Token.bracket_of_isCommand hcommand htext)
    · exact .stops (Token.bracket_of_isCommand hcommand htext)
    · refine .skips hskips ?_
      rw [Token.bracket_of_isCommand hcommand rfl]
      unfold Bracket.ofCommand
      split <;> first | contradiction | rfl
  · rename_i hcommand
    exact .skips hskips (Token.bracket_of_isCommand_eq_false (Bool.eq_false_iff.2 hcommand))

/-- The actions of a line are as its nesting of sub-circuits demands. -/
theorem lineShape_actions (src : Source) (v : View) (line : List Token) :
    LineShape src v line (actions src v line) := by
  unfold actions
  split
  · exact .blank
  · rename_i first rest
    split
    · exact lineShape_skipActions rest ‹_›
    · rename_i hreads
      have hreads := Nat.eq_zero_of_not_pos hreads
      split
      · exact lineShape_commandActions rest hreads ‹_›
      · rename_i hcommand
        have hfirst := Token.bracket_of_isCommand_eq_false (Bool.eq_false_iff.2 hcommand)
        split
        · exact .inner hreads hfirst (inner_elementActions first rest)
        · refine .inner hreads hfirst (List.forall_mem_singleton.2 (.report ?_))
          exact isAt_findingAt List.mem_cons_self rfl

end Shape

end Reader

end FlatNet
