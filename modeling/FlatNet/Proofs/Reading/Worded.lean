import FlatNet.Proofs.Expr.Names
import FlatNet.Proofs.Reading.Netlist

/-!
# Reading words

The names in the expressions of a text are words, and so are those in the definitions that are read
from it.  Every step of reading keeps the workspace so, if the loader of libraries does.
-/

set_option autoImplicit false

namespace FlatNet

open Text (isWordChar)

/-- The names in the value of the token are words. -/
def TokenKind.Worded : TokenKind → Prop
  | .paramDef _ value => value.Worded
  | .expression value => value.Worded
  | _ => True

/-- The names in the value of the token are words, and so is an identifier. -/
structure Token.Worded (t : Token) : Prop where
  named : t.Named
  kind : t.kind.Worded

/-! ## Tokens -/

namespace Lexer

/-- The word characters at the front of a text that starts a word are a word. -/
theorem isWord_takeWhile {c : Char} (h : startsWord c = true) (tail : List Char) :
    IsWord ((c :: tail).takeWhile isWordChar) := by
  rw [List.takeWhile_cons, if_pos (isWordChar_of_startsWord h)]
  exact ⟨c, _, rfl, h, fun d hd => List.mem_takeWhile_imp hd⟩

/-- The names in an expression that has been read from a text are words. -/
theorem worded_of_readExpression {shown raw : List Char} {text : String} {e : Expr}
    (h : readExpression shown raw = .ok (text, e)) : e.Worded := by
  unfold readExpression at h
  dsimp only at h
  split at h
  · rename_i hparse
    obtain ⟨-, rfl⟩ := Prod.mk.inj (Except.ok.inj h)
    exact Expr.worded_of_parseChars hparse
  · simp at h

/-- The names in an expression in braces are words. -/
theorem worded_of_readBraces {cs : List Char} {text : String} {e : Expr}
    (h : (readBraces cs).result = .ok (text, e)) : e.Worded := by
  unfold readBraces at h
  split at h
  · exact worded_of_readExpression h
  · simp at h

/-- The names in a value behind an equals sign are words. -/
theorem worded_of_readValue {cs : List Char} {e : Expr}
    (h : (readValue cs).result = .value e) : e.Worded := by
  have hread := valueRead cs
  generalize readValue cs = taken at h hread
  cases hread with
  | braces hbraces =>
    obtain rfl := ValueReading.value.inj h
    exact worded_of_readBraces (congrArg Taken.result hbraces)
  | quoted _ hexpression =>
    obtain rfl := ValueReading.value.inj h
    exact worded_of_readExpression hexpression
  | name hword =>
    obtain rfl := ValueReading.value.inj h
    rw [Expr.worded_sym, String.toList_ofList]
    exact isWord_takeWhile hword _
  | number _ _ =>
    obtain rfl := ValueReading.value.inj h
    exact Expr.worded_num _
  | _ => simp at h

/-- A number holds no names. -/
theorem worded_of_isNumeric {kind : TokenKind} (h : kind.isNumeric = true) : kind.Worded := by
  cases kind <;> trivial

/-- However a piece is read, the names in its value are words. -/
theorem TokenRead.worded {c : Char} {tail : List Char} {kind : TokenKind} {text : String}
    (h : TokenRead c tail kind text) : kind.Worded := by
  cases h with
  | braces h => exact worded_of_readBraces h
  | number h => exact worded_of_isNumeric (kind_of_readNumber? h rfl)
  | paramDef h => exact worded_of_readValue h
  | _ => trivial

end Lexer

/-- The names in the values of the tokens of a line are words. -/
theorem Lexeme.CutFrom.worded {line : Nat} {t : Token} (h : (Lexeme.token t).CutFrom line) :
    t.kind.Worded := by
  rcases h.token_cases with hmark | ⟨c, tail, hread⟩
  · simp only [List.mem_cons, List.not_mem_nil, or_false] at hmark
    rcases hmark with hkind | hkind | hkind | hkind <;> rw [hkind] <;> trivial
  · exact hread.worded

namespace Tokenized

/-- Every token of a logical line comes from a line of text. -/
theorem mem_of_mem_gather {g : Gathering} {tokens line : List Token} {t : Token}
    (hline : line ∈ (gather g tokens).lines) (ht : t ∈ line) :
    t ∈ tokens ∨ ∃ old ∈ g.lines, t ∈ old := by
  unfold gather at hline
  dsimp only at hline
  have hcontent : ∀ t ∈ tokens.filter isContent, t ∈ tokens := fun t ht => List.mem_of_mem_filter ht
  split at hline
  · exact .inr ⟨line, hline, ht⟩
  · rename_i last earlier _ hlines _
    rcases List.mem_cons.1 hline with rfl | hline
    · rcases List.mem_append.1 ht with ht | ht
      · exact .inr ⟨last, by rw [hlines]; exact List.mem_cons_self, ht⟩
      · exact .inl (hcontent t ht)
    · exact .inr ⟨line, by rw [hlines]; exact List.mem_cons_of_mem _ hline, ht⟩
  · rcases List.mem_cons.1 hline with rfl | hline
    · exact .inl (hcontent t ht)
    · exact .inr ⟨line, hline, ht⟩

/-- Gathering lines takes no token from anywhere but the rows and the lines gathered before. -/
theorem mem_of_mem_foldl_gather {rows : List (List Token)} {g : Gathering} {line : List Token}
    {t : Token} (hline : line ∈ (rows.foldl gather g).lines) (ht : t ∈ line) :
    (∃ row ∈ rows, t ∈ row) ∨ ∃ old ∈ g.lines, t ∈ old := by
  induction rows generalizing g with
  | nil => exact .inr ⟨line, hline, ht⟩
  | cons tokens rest ih =>
    rcases ih hline with ⟨row, hrow, ht⟩ | ⟨old, hold, ht⟩
    · exact .inl ⟨row, List.mem_cons_of_mem _ hrow, ht⟩
    · rcases mem_of_mem_gather hold ht with ht | hold
      · exact .inl ⟨tokens, List.mem_cons_self, ht⟩
      · exact .inr hold

/-- The names in the values of the tokens of a text are words, and so are its identifiers. -/
theorem worded_of_mem_lines {text : String} :
    ∀ line ∈ (tokenize text).lines, ∀ t ∈ line, t.Worded := by
  intro line hline t ht
  refine ⟨named_of_mem_lines line hline t ht, ?_⟩
  rcases mem_of_mem_foldl_gather (List.mem_reverse.1 hline) ht with ⟨row, hrow, ht⟩ | ⟨old, hold, -⟩
  · obtain ⟨lexemes, hlexemes, rfl⟩ := List.mem_map.1 hrow
    obtain ⟨l, hl, hsome⟩ := List.mem_filterMap.1 ht
    obtain ⟨line', hcut⟩ := Lexer.exists_cutFrom_of_mem_lexLines hlexemes hl
    cases l with
    | token t' =>
      obtain rfl : t' = t := Option.some.inj hsome
      exact hcut.worded
    | fault f => exact absurd hsome (by simp [Lexeme.token?])
  · exact absurd hold List.not_mem_nil

end Tokenized

/-! ## Definitions -/

/-- The name of the element consists of characters of words, and the names in its parameters are
words. -/
structure Element.Worded (e : Element) : Prop where
  refDes : ∀ c ∈ e.refDes.toList, isWordChar c = true
  params : e.params.Worded

/-- The names in all expressions of the definition are words. -/
structure Definition.Worded (d : Definition) : Prop where
  elements : ∀ e ∈ d.elements.values, e.Worded
  models : ∀ card ∈ d.models.values, card.params.Worded
  formals : d.formals.Worded
  params : d.params.Worded

/-- The names in all expressions of the forest are words. -/
def Forest.Worded (forest : Forest) : Prop :=
  ∀ (path : String) (d : Definition), forest[path]? = some d → d.Worded

/-- The names in all expressions of the library are words. -/
structure Library.Worded (lib : Library) : Prop where
  circuits : Forest.Worded lib.circuits
  models : ∀ card ∈ lib.models.values, card.params.Worded
  params : lib.params.Worded

/-- The names in all expressions that a workspace holds are words. -/
structure Workspace.Worded (w : Workspace) : Prop where
  forest : Forest.Worded w.forest
  opened : ∀ d ∈ w.opened, d.Worded
  user : w.user.Worded
  builtin : w.builtin.Worded

/-- A blank definition holds no expressions. -/
theorem Definition.worded_blank (name path title : String) (origin : Option Origin) :
    (blank name path title origin).Worded where
  elements e he := absurd (NameMap.mem_values.1 he) (by simp [blank])
  models card hcard := absurd (NameMap.mem_values.1 hcard) (by simp [blank])
  formals := .empty
  params := .empty

/-- A forest stays worded when a worded definition is put into it. -/
theorem Forest.Worded.insert {forest : Forest} (h : Forest.Worded forest) {d : Definition}
    (hd : d.Worded) (path : String) : Forest.Worded (forest.insert path d) := by
  intro other d' hd'
  rcases NameMap.getElem?_of_insert hd' with ⟨-, rfl⟩ | hold
  · exact hd
  · exact h other d' hold

/-! ## Lines -/

namespace Line

variable {file : String} {head : Token} {device : Device}

/-- Parameters read from worded tokens are worded, if those read before them are. -/
theorem worded_readParams {what : String} {params : NameMap Expr} {tokens : List Token}
    (hparams : params.Worded) (htokens : ∀ t ∈ tokens, t.Worded) :
    (readParams file what params tokens).params.Worded := by
  refine List.foldlRecOn tokens (ParamList.take file what)
    (motive := fun l => l.params.Worded) (b := ⟨params, []⟩) hparams fun l hl t ht => ?_
  have hkind := (htokens t ht).kind
  unfold ParamList.take
  split
  · rename_i name value heq
    rw [heq] at hkind
    exact hl.insert name hkind
  · exact hl

/-- The formals in the heading of a sub-circuit are worded if its tokens are. -/
theorem worded_readHeading {args : List Token} (hargs : ∀ t ∈ args, t.Worded) :
    (readHeading file args).formals.Worded := by
  refine List.foldlRecOn args (Heading.take file)
    (motive := fun h => h.formals.Worded) (b := ⟨[], ∅, []⟩) .empty fun h hh t ht => ?_
  have hkind := (hargs t ht).kind
  unfold Heading.take
  split
  · rename_i name value heq
    rw [heq] at hkind
    exact hh.insert name hkind
  · split <;> exact hh

/-- The parameters of a model card are worded if its tokens are. -/
theorem worded_readCard? {args : List Token} (hargs : ∀ t ∈ args, t.Worded) {name : Token}
    {card : ModelCard} {findings : List Finding}
    (h : readCard? file args = some (name, card, findings)) : card.params.Worded := by
  unfold readCard? at h
  split at h
  · split at h
    · obtain ⟨-, rfl, -⟩ := by simpa using h
      refine worded_readParams .empty fun t ht => hargs t ?_
      exact List.mem_cons_of_mem _ (List.mem_cons_of_mem _ ht)
    · simp at h
  · simp at h

/-- The value that a worded token stands for is worded. -/
theorem worded_value? {t : Token} (ht : t.Worded) {value : Expr} (h : t.value? = some value) :
    value.Worded := by
  have hkind := ht.kind
  unfold Token.value? at h
  split at h
  · rename_i heq
    rw [heq] at hkind
    rwa [← Option.some.inj h]
  · obtain ⟨x, -, rfl⟩ := Option.map_eq_some_iff.1 h
    exact Expr.worded_num x

/-- The value read behind the model of an element is worded if the fields are. -/
theorem worded_readModel {fields : List Token} (hfields : ∀ t ∈ fields, t.Worded)
    {name : String} {value : Expr} {rest : List Token}
    (h : readModel file head device fields = .ok (name, some value, rest)) : value.Worded := by
  unfold readModel at h
  split at h
  · split at h <;> simp at h
  · rename_i t rest'
    split at h
    · simp at h
    · split at h
      · rename_i hvalue
        obtain ⟨-, rfl, -⟩ := by simpa using h
        exact worded_value? (hfields t List.mem_cons_self) hvalue
      · simp at h

/-- The parameters read from the fields of an element are worded if the fields are. -/
theorem worded_readFields {fields : List Token} (hfields : ∀ t ∈ fields, t.Worded) {e : Element}
    (h : readFields file head device fields = .ok e) : e.params.Worded := by
  unfold readFields at h
  dsimp only at h
  cases hnodes : takeNames Token.isNodeName (device.spec.nodes.getD 0) fields with
  | error fault =>
    rw [hnodes] at h
    exact absurd h (by simp [Except.mapError, bind, Except.bind])
  | ok taken =>
    obtain ⟨nodes, behind⟩ := taken
    have hbehind := takeNames_subset hnodes
    rw [hnodes] at h
    cases hrefs : takeNames Token.isIdentifier device.spec.refs behind with
    | error fault =>
      simp only [Except.mapError, bind, Except.bind, hrefs] at h
      exact absurd h (by simp)
    | ok taken =>
      obtain ⟨refs, after⟩ := taken
      have hafter := takeNames_subset hrefs
      simp only [Except.mapError, bind, Except.bind, hrefs] at h
      split at h
      · simp at h
      · rename_i read hread
        obtain ⟨name, value?, rest⟩ := read
        split at h
        · simp at h
        · rw [← Except.ok.inj h]
          cases value? with
          | none => exact .empty
          | some value =>
            refine NameMap.Worded.empty.insert "value" ?_
            exact worded_readModel (fun t ht => hfields t (hbehind (hafter ht))) hread

/-- An element read from a line of worded tokens is worded: its name is an identifier, and its
parameters come from the fields. -/
theorem worded_readElement (hhead : head.Worded) (hname : head.isIdentifier = true)
    {tokens : List Token} (htokens : ∀ t ∈ tokens, t.Worded) {line : ElementLine}
    (h : readElement file head device tokens = .ok line) : line.element.Worded := by
  have hreads := reads_readElement h
  refine ⟨?_, ?_⟩
  · rw [hreads.refDes]
    exact (hhead.named hname).2
  · unfold readElement at h
    dsimp only at h
    split at h
    · simp at h
    · rename_i e he
      rw [← Except.ok.inj h]
      refine worded_readParams ?_ fun t ht => htokens t ((List.dropWhile_suffix _).subset ht)
      split at he
      · unfold readInstance at he
        split at he
        · simp at he
        · split at he
          · simp at he
          · split at he
            · simp at he
            · rw [← Except.ok.inj he]
              exact .empty
      · exact worded_readFields (fun t ht => htokens t (List.takeWhile_subset _ ht)) he

end Line

/-- The loader keeps workspaces worded. -/
def Loader.KeepsWorded (load : Loader) : Prop :=
  ∀ (kind : LibraryKind) (name : String) (w : Workspace), w.Worded → (load kind name w).1.Worded

namespace Reader

variable {src : Source} {load : Loader} {r : Reader}

/-! ## Actions -/

/-- The action brings in nothing but words. -/
def Action.Worded : Action → Prop
  | .change g => ∀ d : Definition, d.Worded → (g d).Worded
  | .opens d => d.Worded
  | _ => True

section Actions

variable {v : View} {first : Token} {args : List Token}

/-- Findings bring in no names. -/
theorem worded_map_report (fs : List Finding) : ∀ a ∈ fs.map Action.report, a.Worded := by
  intro a ha
  obtain ⟨f, -, rfl⟩ := List.mem_map.1 ha
  trivial

/-- The heading of a sub-circuit opens a worded definition. -/
theorem worded_subcktActions (hargs : ∀ t ∈ args, t.Worded) :
    ∀ a ∈ subcktActions src v first args, a.Worded := by
  unfold subcktActions rejection
  split
  · simp [Action.Worded]
  · rename_i name rest
    split
    · simp [Action.Worded]
    · split
      · simp [Action.Worded]
      · refine List.forall_mem_cons.2 ⟨?_, worded_map_report _⟩
        have hblank := Definition.worded_blank name.text (Scope.child v.current.path name.text)
          name.text (some (Line.originOf src.file first))
        exact ⟨hblank.elements, hblank.models,
          Line.worded_readHeading fun t ht => hargs t (List.mem_cons_of_mem _ ht), hblank.params⟩

/-- The parameters of a line are added to a worded definition as words. -/
theorem worded_paramActions (hcurrent : v.current.Worded) (hargs : ∀ t ∈ args, t.Worded) :
    ∀ a ∈ paramActions src v first args, a.Worded := by
  unfold paramActions
  split
  · simp [Action.Worded]
  · refine List.forall_mem_cons.2 ⟨fun d hd => ?_, worded_map_report _⟩
    exact ⟨hd.elements, hd.models, hd.formals, Line.worded_readParams hcurrent.params hargs⟩

/-- A model card adds nothing but words. -/
theorem worded_modelActions (hargs : ∀ t ∈ args, t.Worded) :
    ∀ a ∈ modelActions src v first args, a.Worded := by
  unfold modelActions
  split
  · simp [Action.Worded]
  · rename_i head card findings hcard
    refine List.forall_mem_append.2 ⟨worded_map_report _, List.forall_mem_singleton.2 ?_⟩
    split
    · trivial
    · intro d hd
      refine ⟨hd.elements, fun other hother => ?_, hd.formals, hd.params⟩
      rcases NameMap.mem_values_insert hother with rfl | hother
      · exact Line.worded_readCard? hargs hcard
      · exact hd.models other hother

/-- The name of a library brings in no expression by itself. -/
theorem worded_libraryNameActions (t : Token) : ∀ a ∈ libraryNameActions src t, a.Worded := by
  unfold libraryNameActions
  split
  · simp [Action.Worded]
  · refine List.forall_mem_cons.2 ⟨fun d hd => ?_, by simp [Action.Worded]⟩
    exact ⟨hd.elements, hd.models, hd.formals, hd.params⟩

/-- A line that names libraries brings in no expression by itself. -/
theorem worded_librariesActions : ∀ a ∈ librariesActions src first args, a.Worded := by
  unfold librariesActions
  split
  · simp [Action.Worded]
  · intro a ha
    obtain ⟨t, -, ha⟩ := List.mem_flatMap.1 ha
    exact worded_libraryNameActions t a ha

/-- A declaration is a name and leaves the expressions of the definition alone. -/
theorem worded_declare {d : Definition} (hd : d.Worded) (keyword : String)
    (declaration : Declaration) : (declare keyword declaration d).Worded := by
  unfold declare
  split
  · exact ⟨hd.elements, hd.models, hd.formals, hd.params⟩
  · split <;> exact ⟨hd.elements, hd.models, hd.formals, hd.params⟩

/-- Declarations bring in no expressions. -/
theorem worded_declarationsActions (keyword : String) :
    ∀ a ∈ declarationsActions src first args keyword, a.Worded := by
  unfold declarationsActions
  split
  · simp [Action.Worded]
  · intro a ha
    obtain ⟨t, -, rfl⟩ := List.mem_map.1 ha
    unfold declarationAction
    split
    · exact fun d hd => worded_declare hd _ _
    · trivial

/-- Whatever a command does, it brings in nothing but words. -/
theorem worded_commandActions (hcurrent : v.current.Worded) (hargs : ∀ t ∈ args, t.Worded) :
    ∀ a ∈ commandActions src v first args, a.Worded := by
  unfold commandActions endsActions
  split
  · exact worded_subcktActions hargs
  · split <;> simp [Action.Worded]
  · exact worded_paramActions hcurrent hargs
  · exact worded_modelActions hargs
  · exact worded_librariesActions
  · exact worded_librariesActions
  · exact worded_librariesActions
  · exact worded_declarationsActions _
  · exact worded_declarationsActions _
  · exact worded_declarationsActions _
  · simp [Action.Worded]
  · simp [Action.Worded]

/-- The line of an element brings in nothing but words. -/
theorem worded_elementActions (hfirst : first.Worded) (hname : first.isIdentifier = true)
    (hargs : ∀ t ∈ args, t.Worded) : ∀ a ∈ elementActions src v first args, a.Worded := by
  unfold elementActions
  split
  · simp [Action.Worded]
  · split
    · simp [Action.Worded]
    · rename_i line hline
      refine List.forall_mem_append.2 ⟨worded_map_report _, List.forall_mem_singleton.2 ?_⟩
      split
      · trivial
      · intro d hd
        refine ⟨fun e he => ?_, hd.models, hd.formals, hd.params⟩
        rcases NameMap.mem_values_insert he with rfl | he
        · exact Line.worded_readElement hfirst hname hargs hline
        · exact hd.elements e he

/-- A line that is skipped brings in nothing. -/
theorem worded_skipActions : ∀ a ∈ skipActions v first, a.Worded := by
  unfold skipActions
  split
  · split <;> simp [Action.Worded]
  · simp

/-- The actions of a line bring in nothing but words. -/
theorem worded_actions (hcurrent : v.current.Worded) {line : List Token}
    (hline : ∀ t ∈ line, t.Worded) : ∀ a ∈ actions src v line, a.Worded := by
  unfold actions
  split
  · exact List.forall_mem_nil _
  · rename_i first rest
    obtain ⟨hfirst, hrest⟩ := List.forall_mem_cons.1 hline
    split
    · exact worded_skipActions
    · split
      · exact worded_commandActions hcurrent hrest
      · split
        · exact worded_elementActions hfirst ‹_› hrest
        · exact List.forall_mem_singleton.2 trivial

end Actions

/-! ## Steps -/

/-- A workspace stays worded under a change that keeps definitions worded. -/
theorem worded_modifyCurrent (h : r.work.Worded) {g : Definition → Definition}
    (hg : ∀ d : Definition, d.Worded → (g d).Worded) : (r.modifyCurrent g).work.Worded := by
  rw [modifyCurrent_eq]
  exact ⟨h.forest, forall_mem_modifyHead h.opened hg, h.user, h.builtin⟩

/-- A finding leaves the definitions worded. -/
theorem worded_report (h : r.work.Worded) (f : Finding) : (r.report f).work.Worded := by
  rw [report_eq]
  refine ⟨h.forest, ?_, h.user, h.builtin⟩
  dsimp only
  split
  · exact forall_mem_modifyHead h.opened fun d hd =>
      ⟨hd.elements, hd.models, hd.formals, hd.params⟩
  · exact h.opened

/-- Findings leave the definitions worded. -/
theorem worded_reportAll (h : r.work.Worded) (fs : List Finding) :
    (r.reportAll fs).work.Worded := by
  induction fs generalizing r with
  | nil => exact h
  | cons f rest ih => exact ih (worded_report h f)

/-- Closing the innermost definition keeps the workspace worded: the definition goes to the forest
as it is, or is dropped. -/
theorem worded_close (h : r.work.Worded) : r.close.work.Worded := by
  cases hopened : r.work.opened with
  | nil =>
    unfold close
    rw [hopened]
    exact h
  | cons d around =>
    have hall := h.opened
    rw [hopened] at hall
    obtain ⟨hd, haround⟩ := List.forall_mem_cons.1 hall
    cases hcontains : r.work.forest.contains d.path with
    | true =>
      rw [close_of_contains hopened hcontains]
      exact worded_report (r := { r with work := { r.work with opened := around } })
        ⟨h.forest, haround, h.user, h.builtin⟩ _
    | false =>
      rw [close_of_not_contains hopened hcontains]
      have hforest := h.forest.insert hd d.path
      exact worded_modifyCurrent
        (r := { r with
          work := { r.work with opened := around, forest := r.work.forest.insert d.path d } })
        ⟨hforest, haround, h.user, h.builtin⟩ fun parent hp =>
          ⟨hp.elements, hp.models, hp.formals, hp.params⟩

/-- Loading a library keeps the workspace worded if the loader does. -/
theorem worded_loaded (hload : load.KeepsWorded) (h : r.work.Worded) (t : Token) :
    (r.loaded src load t).work.Worded := by
  have hloaded := hload src.libraryKind t.text r.work h
  unfold loaded
  split
  · rename_i work hwork
    rwa [hwork] at hloaded
  · rename_i work problem hwork
    rw [hwork] at hloaded
    exact worded_report (r := { r with work }) hloaded _

/-- A worded action keeps the workspace worded. -/
theorem worded_perform (hload : load.KeepsWorded) (h : r.work.Worded) {a : Action}
    (ha : a.Worded) : (r.perform src load a).work.Worded := by
  cases a with
  | report f => exact worded_report h f
  | change g => exact worded_modifyCurrent h ha
  | opens d => exact ⟨h.forest, List.forall_mem_cons.2 ⟨ha, h.opened⟩, h.user, h.builtin⟩
  | closes => exact worded_close h
  | load t => exact worded_loaded hload h t
  | skipTo depth => exact h
  | stop => exact h

/-- Worded actions keep the workspace worded, one after another. -/
theorem worded_performAll (hload : load.KeepsWorded) (h : r.work.Worded) {as : List Action}
    (has : ∀ a ∈ as, a.Worded) : (r.performAll src load as).work.Worded := by
  induction as generalizing r with
  | nil => exact h
  | cons a rest ih =>
    obtain ⟨ha, hrest⟩ := List.forall_mem_cons.1 has
    exact ih (worded_perform hload h ha) hrest

/-- The definition that a line sees is worded if the workspace is. -/
theorem worded_current_view (h : r.work.Worded) : r.view.current.Worded := by
  have hblank : (default : Definition).Worded := Definition.worded_blank "" "" "" none
  have hcurrent : r.current.Worded := by
    have hall := h.opened
    unfold current
    cases hopened : r.work.opened with
    | nil => exact hblank
    | cons d around => exact hall d (by rw [hopened]; exact List.mem_cons_self)
  rw [current_view]
  exact ⟨hcurrent.elements, hcurrent.models, hcurrent.formals, hcurrent.params⟩

/-- A line keeps the workspace worded. -/
theorem worded_readLine (hload : load.KeepsWorded) (h : r.work.Worded) {line : List Token}
    (hline : ∀ t ∈ line, t.Worded) : (r.readLine src load line).work.Worded := by
  rw [readLine_eq]
  exact worded_performAll hload h (worded_actions (worded_current_view h) hline)

/-- Reading the title keeps the workspace worded. -/
theorem worded_readTitle (hload : load.KeepsWorded) (h : r.work.Worded) {line : List Token}
    (hline : ∀ t ∈ line, t.Worded) : (r.readTitle src load line).work.Worded := by
  unfold readTitle
  split
  · exact worded_report h _
  · split
    · exact worded_modifyCurrent h fun d hd => ⟨hd.elements, hd.models, hd.formals, hd.params⟩
    · exact worded_readLine hload (worded_report h _) hline

/-- Reading the lines of a text keeps the workspace worded, by induction on the lines. -/
theorem worded_readLines (hload : load.KeepsWorded) (h : r.work.Worded)
    {lines : List (List Token)} (hlines : ∀ line ∈ lines, ∀ t ∈ line, t.Worded) :
    (readLines src load r lines).work.Worded := by
  induction lines generalizing r with
  | nil => exact h
  | cons line rest ih =>
    obtain ⟨hline, hrest⟩ := List.forall_mem_cons.1 hlines
    unfold readLines
    split
    · exact h
    · exact ih (worded_readLine hload h hline) hrest

/-- Closing what is left open keeps the workspace worded. -/
theorem worded_closeLeftOver (h : r.work.Worded) (n : Nat) : (closeLeftOver n r).work.Worded := by
  induction n generalizing r with
  | zero => exact h
  | succ n ih => exact ih (worded_close (worded_report h _))

/-- Settling what has been read keeps the workspace worded. -/
theorem worded_settle (h : r.work.Worded) : r.settle.work.Worded := by
  unfold settle
  split
  · exact h
  · rename_i root around hopened
    have hall := h.opened
    rw [hopened] at hall
    obtain ⟨hroot, haround⟩ := List.forall_mem_cons.1 hall
    exact ⟨h.forest.insert hroot root.path, haround, h.user, h.builtin⟩

/-- When a text has been read, the workspace is worded if it was before. -/
theorem worded_ofText (hload : load.KeepsWorded) {w : Workspace} (h : w.Worded)
    (path text : String) : (ofText load src path text w).work.Worded := by
  have hinitial : (initial src path text w).work.Worded :=
    ⟨h.forest, List.forall_mem_cons.2 ⟨Definition.worded_blank _ _ _ _, h.opened⟩, h.user,
      h.builtin⟩
  have hfaults := worded_reportAll hinitial (faults src.file text)
  have hread : (readText load src path text w).work.Worded := by
    have hlines := @Tokenized.worded_of_mem_lines text
    unfold readText readAll
    split
    · exact worded_report hfaults _
    · rename_i title rest heq
      rw [heq] at hlines
      obtain ⟨htitle, hrest⟩ := List.forall_mem_cons.1 hlines
      exact worded_readLines hload (worded_readTitle hload hfaults htitle) hrest
  unfold ofText closeAll
  dsimp only
  split
  · exact worded_report (worded_closeLeftOver hread _) _
  · exact worded_closeLeftOver hread _

end Reader

/-- Reading a source text keeps a workspace worded. -/
theorem worded_readSource {load : Loader} (hload : load.KeepsWorded) {w : Workspace}
    (h : w.Worded) (src : Source) (path text : String) :
    (readSource load src path text w).1.Worded := by
  rw [Reader.readSource_eq]
  exact Reader.worded_settle (Reader.worded_ofText hload h path text)

end FlatNet
