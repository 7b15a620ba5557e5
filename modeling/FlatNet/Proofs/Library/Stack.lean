import FlatNet.Proofs.Library.Undisturbed
import FlatNet.Proofs.Reading.Stack

/-!
# Stacks of libraries inside texts

The libraries that a line names are read before the next line, and the lines of a library name
further ones.  While such a library is read nothing but its own definitions is open; afterwards
what was open before is open again.  So whatever text is being read, however deeply it was reached,
the open definitions are a stack on its own one (`keepsStack_of_reaches`).
-/

set_option autoImplicit false

namespace FlatNet

open Loading (namespaceOf)

/-- A text that is to be read into a workspace, its definition getting the path. -/
structure Job where
  src : Source
  path : String
  text : String
  work : Workspace

namespace Job

variable (disk : Disk)

/-- The states that the reader of the text passes through. -/
def passes (j : Job) : List Reader := Reader.passesOfText disk.loader j.src j.path j.text j.work

/-- The workspace when the text has been read. -/
def result (j : Job) : Workspace := (j.work.readSource disk j.src j.path j.text).1

/-- The loads that the lines of the text ask for. -/
def loads (j : Job) : List Reader.Load :=
  Reader.loadsOfText j.src disk.loader j.path j.text j.work

/-- The library text that is read for a load, from the path that leads to it, its canonical path and
the text. -/
def ofLoad (l : Reader.Load) : String × String × String → Job
  | (path, canonical, text) =>
    { src := ⟨path, .library l.kind⟩
      path := namespaceOf path
      text := text
      work := { l.work with compiled := l.work.compiled.insert canonical, opened := [] } }

/-- The library texts that are read for the lines of the text. -/
def entered (j : Job) : List Job :=
  (j.loads disk).filterMap fun l => (l.entered? disk).map (ofLoad l)

/-- The second text is the first one, or is read for a line of it, of a library that is read for
one, and so on. -/
def Reaches : Job → Job → Prop := Relation.ReflTransGen fun j j' => j' ∈ j.entered disk

variable {disk}

/-- What a load does if it reads a library text. -/
theorem includeLibrary_of_entered? {l : Reader.Load} {path canonical text : String}
    (h : l.entered? disk = some (path, canonical, text)) :
    l.work.includeLibrary disk l.kind l.name =
      ((({ l.work with compiled := l.work.compiled.insert canonical : Workspace
          }.compileLibraryText disk l.kind path text).1).updateLibrary l.kind
            (·.noteFile canonical), none) := by
  unfold Reader.Load.entered? at h
  rw [Workspace.includeLibrary, ← Loading.compileNamed_loader, Loading.compileNamed]
  split at h
  · simp at h
  · rename_i hstandard
    obtain ⟨path', hpath, h⟩ := Option.bind_eq_some_iff.1 h
    obtain ⟨⟨canonical', object⟩, hfind, h⟩ := Option.bind_eq_some_iff.1 h
    dsimp only at h
    split at h
    · simp at h
    · rename_i hnew
      obtain ⟨text', htext, heq⟩ := Option.map_eq_some_iff.1 h
      simp only [Prod.mk.injEq] at heq
      obtain ⟨rfl, rfl, rfl⟩ := heq
      rw [if_neg hstandard, hpath]
      dsimp only
      rw [Loading.compileFile, hfind]
      dsimp only
      rw [if_neg hnew]
      cases hobject : Disk.textOf object with
      | error message => simp [hobject, Except.toOption] at htext
      | ok found =>
        obtain rfl : found = text' := by simpa [hobject, Except.toOption] using htext
        rfl

/-- When a nested library is entered nothing is open. -/
theorem opened_of_mem_entered {j j' : Job} (h : j' ∈ j.entered disk) : j'.work.opened = [] := by
  obtain ⟨l, -, hl⟩ := List.mem_filterMap.1 h
  obtain ⟨e, -, rfl⟩ := Option.map_eq_some_iff.1 hl
  rfl

/-- Every text that is reached begins with nothing open. -/
theorem Reaches.opened {outer inner : Job} (hempty : outer.work.opened = [])
    (h : Reaches disk outer inner) : inner.work.opened = [] := by
  cases h with
  | refl => exact hempty
  | tail _ hentered => exact opened_of_mem_entered hentered

/-- The open definitions are in order while the text is read. -/
structure KeepsStack (disk : Disk) (j : Job) : Prop where
  /-- In every state that the reader passes through there is an innermost definition, and the open
  ones are a stack on the definition of the text. -/
  passes : ∀ r ∈ j.passes disk,
    0 < r.work.opened.length ∧ Reader.Stacked j.src j.path r.work.opened
  /-- What has been read is settled in the last of these states. -/
  last : ∃ r ∈ (j.passes disk).getLast?, j.result disk = r.settle.work
  /-- The libraries that the lines name leave the open definitions as they are. -/
  loads : ∀ l ∈ j.loads disk,
    (l.work.includeLibrary disk l.kind l.name).1.opened = l.work.opened
  /-- In the end nothing is open. -/
  opened : (j.result disk).opened = []
  /-- The definition of the text is in the forest. -/
  root : ∃ root, (j.result disk).forest[j.path]? = some root ∧ j.src.IsRoot j.path root

/-- Whatever text is read, for itself or for a line of another one, the open definitions are in
order, if none was open in the beginning. -/
theorem keepsStack_of_reaches {outer inner : Job} (hempty : outer.work.opened = [])
    (hreaches : Reaches disk outer inner) : inner.KeepsStack disk := by
  have hload : ∀ kind name w, (disk.loader kind name w).1.opened = w.opened :=
    (Loading.frames_loader disk _).opened
  have hinner := hreaches.opened hempty
  have hresult : inner.result disk =
      (readSource disk.loader inner.src inner.path inner.text inner.work).1 := rfl
  obtain ⟨hclosed, hroot⟩ :=
    Reader.exists_root_readSource inner.src inner.path inner.text hload hinner
  refine ⟨?_, ?_, ?_, by rw [hresult, hclosed], by rwa [hresult]⟩
  · intro r hr
    have hstacked := Reader.stacked_of_mem_passesOfText hload hinner r hr
    exact ⟨hstacked.length_pos, hstacked⟩
  · obtain ⟨r, hr, heq⟩ := Reader.exists_getLast?_passesOfText disk.loader inner.src inner.path
      inner.text inner.work
    exact ⟨r, hr, congrArg Prod.fst heq⟩
  · intro l _
    exact hload l.kind l.name l.work

/-- A library that names another one. -/
def chained : Disk :=
  (((FileTree.rooted []).write "a.lib" "\"a\"\n.lib b.lib\n".toUTF8).write "b.lib"
    "\"b\"\n".toUTF8).disk

/-- A netlist that names the first of these libraries inside a sub-circuit. -/
def naming : Job where
  src := ⟨"main.cir", .netlist⟩
  path := ""
  text := "t\n.subckt P\n.lib a.lib\n"
  work := Workspace.withBuiltin {} Library.empty

/-- The first library enters the second one, with its path, its namespace and its text. -/
theorem entered_naming :
    ((naming.entered chained).flatMap fun j =>
      (j.entered chained).map fun j' => (j'.src.file, j'.path, j'.text)) =
      [("./b.lib", "lib:._b.lib", "\"b\"\n")] := by decide +kernel

/-- The second library is read while the first one is, and a sub-circuit of the netlist is open. -/
theorem keepsStack_of_reaches_naming : ∃ inner : Job,
    Reaches chained naming inner ∧ inner.path = "lib:._b.lib" ∧ inner.KeepsStack chained := by
  have hmem := List.mem_singleton_self ("./b.lib", "lib:._b.lib", "\"b\"\n")
  rw [← entered_naming] at hmem
  obtain ⟨j, hj, hmem⟩ := List.mem_flatMap.1 hmem
  obtain ⟨inner, hinner, heq⟩ := List.mem_map.1 hmem
  obtain ⟨-, hpath, -⟩ : inner.src.file = "./b.lib" ∧ inner.path = "lib:._b.lib" ∧
      inner.text = "\"b\"\n" := by simpa using heq
  have hreaches : Reaches chained naming inner := (Relation.ReflTransGen.single hj).tail hinner
  exact ⟨inner, hreaches, hpath, keepsStack_of_reaches rfl hreaches⟩

end Job

end FlatNet
