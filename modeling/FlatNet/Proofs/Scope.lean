import FlatNet.Scope

/-!
# The scopes around a path

A name is looked up in the scopes around a path, from the inside to the outside.  `Encloses` says
which these are without an order; `Nearest` says what is found: what the innermost of them gives
that gives anything.
-/

set_option autoImplicit false

namespace FlatNet.Scope

/-- A path lies inside a scope if it goes on behind it with a slash. -/
theorem isWithin_iff {scope path : String} :
    isWithin scope path = true ↔ ∃ rest, path.toList = scope.toList ++ '/' :: rest := by
  unfold isWithin
  rw [List.isPrefixOf_iff_prefix, String.toList_append]
  constructor
  · rintro ⟨rest, hrest⟩
    exact ⟨rest, by rw [← hrest, List.append_assoc]; rfl⟩
  · rintro ⟨rest, hrest⟩
    exact ⟨rest, by rw [hrest, List.append_assoc]; rfl⟩

/-- The path of a definition inside another one goes on with a slash and its name. -/
theorem toList_child {parent : String} (h : parent ≠ "") (name : String) :
    (child parent name).toList = parent.toList ++ '/' :: name.toList := by
  unfold child
  rw [if_neg h, String.toList_append, String.toList_append, List.append_assoc]
  rfl

/-- The scope is the path itself, one that the path lies inside, or the outermost one. -/
def Encloses (scope path : String) : Prop := scope = path ∨ isWithin scope path = true ∨ scope = ""

section Encloses

variable {scope scope' path : String}

/-- A path is a scope around itself. -/
theorem encloses_refl (path : String) : Encloses path path := .inl rfl

/-- The outermost scope is around every path. -/
theorem encloses_empty (path : String) : Encloses "" path := .inr (.inr rfl)

/-- Scopes around a path are shorter. -/
theorem Encloses.eq_or_length_lt (h : Encloses scope path) :
    scope = path ∨ scope.toList.length < path.toList.length := by
  rcases h with rfl | hwithin | rfl
  · exact .inl rfl
  · obtain ⟨rest, hrest⟩ := isWithin_iff.1 hwithin
    refine .inr ?_
    rw [hrest, List.length_append, List.length_cons]
    omega
  · by_cases hpath : path = ""
    · exact .inl hpath.symm
    · refine .inr (List.length_pos_iff.2 fun hnil => hpath ?_)
      exact String.toList_inj.1 hnil

/-- Scopes that lie around each other are the same. -/
theorem Encloses.antisymm (h : Encloses scope scope') (h' : Encloses scope' scope) :
    scope = scope' := by
  rcases h.eq_or_length_lt with heq | hlt
  · exact heq
  · rcases h'.eq_or_length_lt with heq | hlt'
    · exact heq.symm
    · omega

end Encloses

/-! ## From the inside to the outside -/

/-- The beginnings of a path before its slashes. -/
theorem mem_beforeSlashes_iff {before cs : List Char} :
    before ∈ beforeSlashes cs ↔ ∃ rest, cs = before ++ '/' :: rest := by
  induction cs generalizing before with
  | nil => simp [beforeSlashes]
  | cons c cs ih =>
    unfold beforeSlashes
    rw [List.mem_append, List.mem_map]
    constructor
    · rintro (h | ⟨shorter, h, rfl⟩)
      · split at h
        · rename_i hslash
          rw [List.mem_singleton.1 h, hslash]
          exact ⟨cs, rfl⟩
        · exact absurd h List.not_mem_nil
      · obtain ⟨rest, rfl⟩ := ih.1 h
        exact ⟨rest, rfl⟩
    · rintro ⟨rest, hrest⟩
      cases before with
      | nil =>
        obtain ⟨rfl, -⟩ := List.cons.inj hrest
        exact .inl (List.mem_singleton_self [])
      | cons first shorter =>
        obtain ⟨rfl, hshorter⟩ := List.cons.inj hrest
        exact .inr ⟨shorter, ih.2 ⟨rest, hshorter⟩, rfl⟩

/-- What stands before the slashes of a path are the scopes that it lies inside. -/
theorem mem_map_beforeSlashes_iff {scope path : String} :
    scope ∈ (beforeSlashes path.toList).reverse.map String.ofList ↔
      isWithin scope path = true := by
  rw [List.mem_map, isWithin_iff]
  constructor
  · rintro ⟨before, hmem, rfl⟩
    rw [String.toList_ofList]
    exact mem_beforeSlashes_iff.1 (List.mem_reverse.1 hmem)
  · intro h
    exact ⟨scope.toList, List.mem_reverse.2 (mem_beforeSlashes_iff.2 h), String.ofList_toList⟩

/-- The scopes around a path are those that enclose it. -/
theorem mem_outward_iff {scope path : String} : scope ∈ outward path ↔ Encloses scope path := by
  unfold outward Encloses
  rw [List.mem_cons, List.mem_append, mem_map_beforeSlashes_iff]
  by_cases hpath : path = ""
  · rw [if_pos hpath, hpath]
    refine ⟨fun h => ?_, fun h => ?_⟩
    · exact h.imp_right fun h => .inl (h.resolve_right List.not_mem_nil)
    · rcases h with h | h | h
      · exact .inl h
      · exact .inr (.inl h)
      · exact .inl h
  · rw [if_neg hpath, List.mem_singleton]

/-- Of what stands before the slashes of a path, each goes on with a slash to the next. -/
theorem pairwise_beforeSlashes (cs : List Char) :
    (beforeSlashes cs).Pairwise fun outer inner => ∃ rest, inner = outer ++ '/' :: rest := by
  induction cs with
  | nil => exact .nil
  | cons c cs ih =>
    unfold beforeSlashes
    rw [List.pairwise_append, List.pairwise_map]
    refine ⟨?_, ih.imp ?_, ?_⟩
    · split
      · exact List.pairwise_singleton _ _
      · exact .nil
    · rintro outer inner ⟨rest, rfl⟩
      exact ⟨rest, rfl⟩
    · intro outer houter inner hinner
      split at houter
      · rename_i hslash
        obtain ⟨shorter, -, rfl⟩ := List.mem_map.1 hinner
        rw [List.mem_singleton.1 houter, hslash]
        exact ⟨shorter, rfl⟩
      · exact absurd houter List.not_mem_nil

/-- Of two scopes around a path the one that comes later lies around the other one. -/
theorem pairwise_outward (path : String) :
    (outward path).Pairwise fun inner outer => Encloses outer inner := by
  have hscopes : ((beforeSlashes path.toList).reverse.map String.ofList).Pairwise
      fun inner outer => Encloses outer inner := by
    rw [List.pairwise_map, List.pairwise_reverse]
    refine (pairwise_beforeSlashes path.toList).imp ?_
    rintro outer inner ⟨rest, rfl⟩
    refine .inr (.inl (isWithin_iff.2 ⟨rest, ?_⟩))
    rw [String.toList_ofList, String.toList_ofList]
  unfold outward
  rw [List.pairwise_cons]
  refine ⟨fun scope hscope => mem_outward_iff.1 (List.mem_cons_of_mem _ hscope), ?_⟩
  rw [List.pairwise_append]
  refine ⟨hscopes, ?_, fun scope _ last hlast => ?_⟩
  · split
    · exact .nil
    · exact List.pairwise_singleton _ _
  · split at hlast
    · exact absurd hlast List.not_mem_nil
    · rw [List.mem_singleton.1 hlast]
      exact encloses_empty scope

/-! ## What is found -/

section Nearest

variable {α β : Type} {find : String → Option α} {path scope : String} {a : α}

/-- Of the scopes around the path that give anything, the scope is the innermost one, and it gives
the value. -/
structure Nearest (find : String → Option α) (path scope : String) (a : α) : Prop where
  encloses : Encloses scope path
  found : find scope = some a
  nearest : ∀ (other : String) (b : α), Encloses other path → find other = some b →
    Encloses other scope

/-- There is one nearest scope at most. -/
theorem Nearest.unique {scope' : String} {a' : α} (h : Nearest find path scope a)
    (h' : Nearest find path scope' a') : scope = scope' ∧ a = a' := by
  obtain rfl := (h'.nearest scope a h.encloses h.found).antisymm
    (h.nearest scope' a' h'.encloses h'.found)
  exact ⟨rfl, Option.some.inj (h.found.symm.trans h'.found)⟩

/-- The nearest scope stays the same if what the scopes give is changed. -/
theorem nearest_map_iff {change : String → α → β} {b : β} :
    Nearest (fun scope => (find scope).map (change scope)) path scope b ↔
      ∃ a, Nearest find path scope a ∧ change scope a = b := by
  constructor
  · intro h
    obtain ⟨a, ha, hb⟩ := Option.map_eq_some_iff.1 h.found
    refine ⟨a, ⟨h.encloses, ha, fun other c hother hc => ?_⟩, hb⟩
    exact h.nearest other _ hother (congrArg (Option.map (change other)) hc)
  · rintro ⟨a, h, rfl⟩
    refine ⟨h.encloses, congrArg (Option.map (change scope)) h.found, fun other c hother hc => ?_⟩
    obtain ⟨a', ha', -⟩ := Option.map_eq_some_iff.1 hc
    exact h.nearest other a' hother ha'

/-- Nothing is found from the inside to the outside if no scope around the path gives anything. -/
theorem findSome?_outward_eq_none_iff :
    (outward path).findSome? find = none ↔ ∀ scope, Encloses scope path → find scope = none := by
  rw [List.findSome?_eq_none_iff]
  exact forall_congr' fun scope => imp_congr_left mem_outward_iff

/-- What is found from the inside to the outside is what the nearest scope gives. -/
theorem findSome?_outward_eq_some_iff :
    (outward path).findSome? find = some a ↔ ∃ scope, Nearest find path scope a := by
  have hsound : ∀ b, (outward path).findSome? find = some b →
      ∃ scope, Nearest find path scope b := by
    intro b h
    obtain ⟨before, scope, behind, hsplit, hfound, hbefore⟩ := List.findSome?_eq_some_iff.1 h
    refine ⟨scope, mem_outward_iff.1 ?_, hfound, fun other c hother hc => ?_⟩
    · rw [hsplit]
      exact List.mem_append_right _ List.mem_cons_self
    · have hordered := pairwise_outward path
      rw [hsplit, List.pairwise_append, List.pairwise_cons] at hordered
      have hmem := mem_outward_iff.2 hother
      rw [hsplit] at hmem
      rcases List.mem_append.1 hmem with hmem | hmem
      · exact absurd ((hbefore other hmem).symm.trans hc) (by simp)
      · rcases List.mem_cons.1 hmem with rfl | hmem
        · exact encloses_refl other
        · exact hordered.2.1.1 other hmem
  refine ⟨hsound a, ?_⟩
  rintro ⟨scope, hscope⟩
  cases hresult : (outward path).findSome? find with
  | none =>
    have hnone := findSome?_outward_eq_none_iff.1 hresult scope hscope.encloses
    exact absurd (hnone.symm.trans hscope.found) (by simp)
  | some b =>
    obtain ⟨scope', hscope'⟩ := hsound b hresult
    rw [(hscope.unique hscope').2]

end Nearest

end FlatNet.Scope
