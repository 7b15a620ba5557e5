import FlatNet.Proofs.Element
import FlatNet.Reading.Line

/-!
# Element lines

An element line that is accepted gives an element under the name at its head, waiting for its
binding, with as many nodes and references as its device demands.  Whatever is wrong in a line, of
an element or another one, is a structural problem at one of its tokens.
-/

set_option autoImplicit false

namespace FlatNet.Line

variable {file : String} {head : Token} {device : Device}

/-- A row of names that is taken has the length asked for. -/
theorem length_takeNames {accepts : Token → Bool} {n : Nat} {tokens rest : List Token}
    {names : List String} (h : takeNames accepts n tokens = .ok (names, rest)) :
    names.length = n := by
  induction n generalizing tokens names rest with
  | zero =>
    have hnil : ([], tokens) = (names, rest) := Except.ok.inj h
    rw [← (Prod.mk.inj hnil).1]
    rfl
  | succ n ih =>
    cases tokens with
    | nil => exact absurd h (by simp [takeNames])
    | cons t behind =>
      unfold takeNames at h
      split at h
      · split at h
        · rename_i others after hothers
          have hcons : (t.text :: others, after) = (names, rest) := Except.ok.inj h
          rw [← (Prod.mk.inj hcons).1, List.length_cons, ih hothers]
        · exact absurd h (by simp)
        · exact absurd h (by simp)
      · exact absurd h (by simp)

/-- What an element line has been read as: an unbound element that its device may have. -/
structure Reads (head : Token) (device : Device) (e : Element) : Prop where
  refDes : e.refDes = head.text
  device : e.device = device
  shaped : e.Shaped
  unbound : e.primitive? = none

/-- Parameters do not matter for what a line is read as. -/
theorem Reads.withParams {e : Element} (h : Reads head device e) (params : NameMap Expr) :
    Reads head device { e with params } :=
  ⟨h.refDes, h.device, h.shaped.congr rfl rfl rfl, h.unbound⟩

/-- A new element is shaped if its nodes and references are as many as its device demands. -/
theorem reads_newElement {modelName : String} {nodes refs : List String}
    (hnodes : ∀ n, device.spec.nodes = some n → nodes.length = n)
    (hrefs : refs.length = device.spec.refs) :
    Reads head device (newElement file head device modelName nodes refs) :=
  ⟨rfl, rfl, ⟨hnodes, hrefs⟩, rfl⟩

/-- An instance that is read waits for its binding and has the device of instances. -/
theorem reads_readInstance {fields : List Token} {e : Element} (hdevice : device = .subcircuit)
    (h : readInstance file head device fields = .ok e) : Reads head device e := by
  unfold readInstance at h
  split at h
  · exact absurd h (by simp)
  · split at h
    · exact absurd h (by simp)
    · split at h
      · exact absurd h (by simp)
      · rw [← Except.ok.inj h]
        refine reads_newElement ?_ ?_
        · intro n hn
          rw [hdevice] at hn
          exact absurd hn (by simp [Device.spec])
        · rw [hdevice]
          rfl

/-- An element that is read from its fields waits for its binding and is one that its device may
have. -/
theorem reads_readFields {fields : List Token} {e : Element}
    (h : readFields file head device fields = .ok e) : Reads head device e := by
  unfold readFields at h
  dsimp only at h
  cases hnodes : takeNames Token.isNodeName (device.spec.nodes.getD 0) fields with
  | error fault =>
    rw [hnodes] at h
    exact absurd h (by simp [Except.mapError, bind, Except.bind])
  | ok taken =>
    obtain ⟨nodes, behind⟩ := taken
    rw [hnodes] at h
    cases hrefs : takeNames Token.isIdentifier device.spec.refs behind with
    | error fault =>
      simp only [Except.mapError, bind, Except.bind, hrefs] at h
      exact absurd h (by simp)
    | ok taken =>
      obtain ⟨refs, behind⟩ := taken
      simp only [Except.mapError, bind, Except.bind, hrefs] at h
      split at h
      · exact absurd h (by simp)
      · split at h
        · exact absurd h (by simp)
        · rw [← Except.ok.inj h]
          refine (reads_newElement ?_ (length_takeNames hrefs)).withParams _
          intro n hn
          rw [length_takeNames hnodes, hn]
          rfl

/-- An element line of a device gives an element under the name at its head that the device may
have and that waits for its binding. -/
theorem reads_readElement {tokens : List Token} {line : ElementLine}
    (h : readElement file head device tokens = .ok line) : Reads head device line.element := by
  unfold readElement at h
  dsimp only at h
  split at h
  · exact absurd h (by simp)
  · rename_i e he
    rw [← Except.ok.inj h]
    refine Reads.withParams ?_ _
    split at he
    · rename_i hdevice
      exact reads_readInstance hdevice he
    · exact reads_readFields he

/-! ## Places -/

/-- The place is that of a token of the line. -/
def HasPlace (file : String) (line : List Token) (origin : Origin) : Prop :=
  ∃ t ∈ line, origin = originOf file t

/-- The finding is a structural one at a token of the line. -/
def IsAt (file : String) (line : List Token) (f : Finding) : Prop :=
  ∃ t ∈ line, ∃ problem : Problem,
    problem.problemClass = .structural ∧ f = findingAt file t problem

/-- A structural problem at a token of the line is found in the line. -/
theorem isAt_findingAt {line : List Token} {t : Token} (ht : t ∈ line) {problem : Problem}
    (h : problem.problemClass = .structural) : IsAt file line (findingAt file t problem) :=
  ⟨t, ht, problem, h, rfl⟩

/-- A finding in a part of a line is one in the line. -/
theorem IsAt.mono {line line' : List Token} {f : Finding} (h : IsAt file line f)
    (hsub : line ⊆ line') : IsAt file line' f := by
  obtain ⟨t, ht, problem, hclass, rfl⟩ := h
  exact isAt_findingAt (hsub ht) hclass

/-- What is found wrong with parameters is placed at one of their tokens. -/
theorem isAt_readParams {what : String} {params : NameMap Expr} {tokens : List Token} :
    ∀ f ∈ (readParams file what params tokens).findings, IsAt file tokens f := by
  have hnil : ∀ f ∈ (⟨params, []⟩ : ParamList).findings, IsAt file tokens f :=
    fun _ hf => absurd hf List.not_mem_nil
  refine List.foldlRecOn tokens (ParamList.take file what)
    (motive := fun l => ∀ f ∈ l.findings, IsAt file tokens f) hnil fun l hl t ht => ?_
  unfold ParamList.take
  split
  · exact hl
  · refine List.forall_mem_append.2 ⟨hl, List.forall_mem_singleton.2 ?_⟩
    exact isAt_findingAt ht rfl

/-- What is found wrong with the heading of a sub-circuit is placed at one of its tokens. -/
theorem isAt_readHeading {args : List Token} :
    ∀ f ∈ (readHeading file args).findings, IsAt file args f := by
  have hnil : ∀ f ∈ (⟨[], ∅, []⟩ : Heading).findings, IsAt file args f :=
    fun _ hf => absurd hf List.not_mem_nil
  refine List.foldlRecOn args (Heading.take file)
    (motive := fun l => ∀ f ∈ l.findings, IsAt file args f) hnil fun l hl t ht => ?_
  unfold Heading.take
  split
  · exact hl
  · split
    · exact hl
    · refine List.forall_mem_append.2 ⟨hl, List.forall_mem_singleton.2 ?_⟩
      exact isAt_findingAt ht rfl

/-- A named model stands at its name. -/
theorem hasPlace_readCard? {args : List Token} {name : Token} {card : ModelCard}
    {findings : List Finding} (h : readCard? file args = some (name, card, findings)) :
    name ∈ args ∧ card.origin = originOf file name ∧ ∀ f ∈ findings, IsAt file args f := by
  unfold readCard? at h
  split at h
  · split at h
    · obtain ⟨rfl, rfl, rfl⟩ := by simpa using h
      refine ⟨List.mem_cons_self, rfl, fun f hf => ?_⟩
      exact (isAt_readParams f hf).mono fun t ht =>
        List.mem_cons_of_mem _ (List.mem_cons_of_mem _ ht)
    · exact absurd h (by simp)
  · exact absurd h (by simp)

/-- The name fault of a row of names taken from a line is one in the line. -/
theorem isAt_nameFault {accepts : Token → Bool} {n : Nat} {tokens line : List Token}
    {fault : NameFault} {what many : String} {expected : Nat} (hhead : head ∈ line)
    (hsub : tokens ⊆ line) (h : takeNames accepts n tokens = .error fault) :
    IsAt file line (fault.finding file head what many expected) := by
  cases fault with
  | short found => exact isAt_findingAt hhead rfl
  | wrong t =>
    refine isAt_findingAt (hsub ?_) rfl
    clear hsub
    induction n generalizing tokens with
    | zero => exact absurd h (by simp [takeNames])
    | succ n ih =>
      cases tokens with
      | nil => exact absurd h (by simp [takeNames])
      | cons first rest =>
        unfold takeNames at h
        split at h
        · split at h
          · exact absurd h (by simp)
          · exact absurd h (by simp)
          · rename_i other hother
            rw [Except.error.inj h] at hother
            exact List.mem_cons_of_mem _ (ih hother)
        · injection h with h
          injection h with h
          rw [h]
          exact List.mem_cons_self

/-- What is left of a line behind a row of names is a part of it. -/
theorem takeNames_subset {accepts : Token → Bool} {n : Nat} {tokens rest : List Token}
    {names : List String} (h : takeNames accepts n tokens = .ok (names, rest)) :
    rest ⊆ tokens := by
  induction n generalizing tokens names rest with
  | zero =>
    have hnil : ([], tokens) = (names, rest) := Except.ok.inj h
    rw [← (Prod.mk.inj hnil).2]
    exact List.Subset.refl _
  | succ n ih =>
    cases tokens with
    | nil => exact absurd h (by simp [takeNames])
    | cons t behind =>
      unfold takeNames at h
      split at h
      · split at h
        · rename_i others after hothers
          have hcons : (t.text :: others, after) = (names, rest) := Except.ok.inj h
          rw [← (Prod.mk.inj hcons).2]
          exact List.subset_cons_of_subset _ (ih hothers)
        · exact absurd h (by simp)
        · exact absurd h (by simp)
      · exact absurd h (by simp)

/-- The result is as it should be, or a finding in the line. -/
def Yields {α : Type} (file : String) (line : List Token) (good : α → Prop) :
    Except Finding α → Prop
  | .ok a => good a
  | .error f => IsAt file line f

/-- The element stands at the head of its line and waits for its binding. -/
structure Waits (file : String) (head : Token) (e : Element) : Prop where
  unresolved : e.isUnresolved = true
  origin : e.origin = originOf file head

section Fields

variable {line fields : List Token}

/-- An instance is read, or something is found wrong in its line. -/
theorem yields_readInstance (hhead : head ∈ line) (hsub : fields ⊆ line) :
    Yields file line (Waits file head) (readInstance file head device fields) := by
  unfold readInstance
  split
  · exact isAt_findingAt hhead rfl
  · rename_i name hname
    split
    · exact isAt_findingAt (hsub (List.mem_of_getLast? hname)) rfl
    · split
      · rename_i t ht
        have hmem := List.dropLast_subset _ (List.mem_of_find?_eq_some ht)
        exact isAt_findingAt (hsub hmem) rfl
      · exact ⟨rfl, rfl⟩

/-- The model of an element is read with fields of the line left, or something is found wrong in the
line. -/
theorem yields_readModel (hhead : head ∈ line) (hsub : fields ⊆ line) :
    Yields file line (fun read => read.2.2 ⊆ line) (readModel file head device fields) := by
  unfold readModel
  split
  · split
    · exact isAt_findingAt hhead rfl
    · exact List.nil_subset line
  · rename_i t rest
    obtain ⟨ht, hrest⟩ := List.cons_subset.1 hsub
    split
    · exact hrest
    · split
      · exact hrest
      · exact isAt_findingAt ht rfl

/-- The fields of an element are read, or something is found wrong in its line. -/
theorem yields_readFields (hhead : head ∈ line) (hsub : fields ⊆ line) :
    Yields file line (Waits file head) (readFields file head device fields) := by
  unfold readFields
  dsimp only
  cases hnodes : takeNames Token.isNodeName (device.spec.nodes.getD 0) fields with
  | error fault => exact isAt_nameFault hhead hsub hnodes
  | ok taken =>
    obtain ⟨nodes, behind⟩ := taken
    have hbehind := List.Subset.trans (takeNames_subset hnodes) hsub
    simp only [Except.mapError, bind, Except.bind]
    cases hrefs : takeNames Token.isIdentifier device.spec.refs behind with
    | error fault => exact isAt_nameFault hhead hbehind hrefs
    | ok taken =>
      obtain ⟨refs, after⟩ := taken
      have hafter := List.Subset.trans (takeNames_subset hrefs) hbehind
      have hmodel : Yields file line _ (readModel file head device after) :=
        yields_readModel hhead hafter
      dsimp only
      split
      · rename_i f hf
        rw [hf] at hmodel
        exact hmodel
      · rename_i read hread
        rw [hread] at hmodel
        split
        · rename_i t rest hleft
          have hmem : t ∈ line := hmodel (by rw [hleft]; exact List.mem_cons_self)
          exact isAt_findingAt hmem rfl
        · exact ⟨rfl, rfl⟩

end Fields

/-- An element line gives an element at its head, or a finding in the line. -/
theorem yields_readElement (file : String) (head : Token) (device : Device)
    (tokens : List Token) :
    Yields file (head :: tokens)
      (fun line => Waits file head line.element ∧
        ∀ f ∈ line.findings, IsAt file (head :: tokens) f)
      (readElement file head device tokens) := by
  have hhead : head ∈ head :: tokens := List.mem_cons_self
  have hfields : (tokens.takeWhile fun t => !t.isParamDef) ⊆ head :: tokens :=
    List.subset_cons_of_subset _ (List.takeWhile_subset _)
  have hparams : (tokens.dropWhile fun t => !t.isParamDef) ⊆ head :: tokens :=
    List.subset_cons_of_subset _ (List.dropWhile_suffix _).subset
  have hinstance : Yields file _ _ (readInstance file head device _) :=
    yields_readInstance hhead hfields
  have hspec : Yields file _ _ (readFields file head device _) := yields_readFields hhead hfields
  unfold readElement
  dsimp only
  split
  · rename_i f hf
    split at hf
    · rw [hf] at hinstance
      exact hinstance
    · rw [hf] at hspec
      exact hspec
  · rename_i e he
    have hwaits : Waits file head e := by
      split at he
      · rw [he] at hinstance
        exact hinstance
      · rw [he] at hspec
        exact hspec
    exact ⟨⟨hwaits.unresolved, hwaits.origin⟩, fun f hf => (isAt_readParams f hf).mono hparams⟩

end FlatNet.Line
