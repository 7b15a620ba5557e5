import FlatNet.Library.Basic
import Mathlib.Data.List.Perm.Basic
import Mathlib.Data.List.Nodup

/-!
# Maps of names as lists

A map of names is looked at in two ways: through its look-ups, and through the list of its entries.
The statements here carry insertion and removal from the first view to the second, up to the order
of the entries, and say what a row of insertions leaves behind.
-/

set_option autoImplicit false

namespace FlatNet.NameMap

variable {α : Type}

/-- The values of a map are the second components of its entries. -/
theorem values_eq_map_toList (m : NameMap α) : m.values = m.toList.map Prod.snd := by
  have hfold : m.values = m.foldr (fun _ value rest => value :: rest) [] := by
    obtain ⟨⟨q⟩⟩ := m
    induction q using Quotient.inductionOn
    rfl
  rw [hfold, Std.ExtTreeMap.foldr_eq_foldr_toList]
  induction m.toList with
  | nil => rfl
  | cons entry rest ih => rw [List.foldr_cons, ih, List.map_cons]

/-- A value occurs in a map exactly if it is found under some name. -/
theorem mem_values {m : NameMap α} {value : α} :
    value ∈ m.values ↔ ∃ name : String, m[name]? = some value := by
  rw [values_eq_map_toList, List.mem_map]
  constructor
  · rintro ⟨⟨name, v⟩, hmem, rfl⟩
    exact ⟨name, Std.ExtTreeMap.mem_toList_iff_getElem?_eq_some.1 hmem⟩
  · rintro ⟨name, hname⟩
    exact ⟨(name, value), Std.ExtTreeMap.mem_toList_iff_getElem?_eq_some.2 hname, rfl⟩

/-- A map contains the names that it has values for. -/
theorem contains_iff {m : NameMap α} {name : String} :
    m.contains name = true ↔ ∃ value, m[name]? = some value := by
  rw [Std.ExtTreeMap.contains_eq_isSome_getElem?, Option.isSome_iff_exists]

/-- A map does not contain the names that it has no values for. -/
theorem contains_eq_false_iff {m : NameMap α} {name : String} :
    m.contains name = false ↔ m[name]? = none := by
  rw [Std.ExtTreeMap.contains_eq_isSome_getElem?, Option.isSome_eq_false_iff,
    Option.isNone_iff_eq_none]

/-- What is found after an insertion is the inserted value, or was found before. -/
theorem getElem?_of_insert {m : NameMap α} {key name : String} {new value : α}
    (h : (m.insert key new)[name]? = some value) :
    (name = key ∧ value = new) ∨ m[name]? = some value := by
  rw [Std.ExtTreeMap.getElem?_insert] at h
  split at h
  · rename_i heq
    exact .inl ⟨(Std.LawfulEqCmp.compare_eq_iff_eq.1 heq).symm, (Option.some.inj h).symm⟩
  · exact .inr h

/-- Inserting an entry leaves those of other names. -/
theorem getElem?_insert_of_ne {m : NameMap α} {key name : String} (h : key ≠ name) (value : α) :
    (m.insert key value)[name]? = m[name]? := by
  rw [Std.ExtTreeMap.getElem?_insert, if_neg]
  intro heq
  exact h (Std.LawfulEqCmp.compare_eq_iff_eq.1 heq)

/-- What is found after a removal was found before. -/
theorem getElem?_of_erase {m : NameMap α} {key name : String} {value : α}
    (h : (m.erase key)[name]? = some value) : m[name]? = some value := by
  rw [Std.ExtTreeMap.getElem?_erase] at h
  split at h
  · exact absurd h (by simp)
  · exact h

/-- The values behind an insertion are the new one and those of before. -/
theorem mem_values_insert {m : NameMap α} {name : String} {value other : α}
    (h : other ∈ (m.insert name value).values) : other = value ∨ other ∈ m.values := by
  obtain ⟨key, hkey⟩ := mem_values.1 h
  rcases getElem?_of_insert hkey with ⟨-, hnew⟩ | hold
  · exact .inl hnew
  · exact .inr (mem_values.2 ⟨key, hold⟩)

/-- No two entries of a map have one name. -/
theorem nodup_map_fst_toList (m : NameMap α) : (m.toList.map Prod.fst).Nodup := by
  rw [List.Nodup, List.pairwise_map]
  refine m.distinct_keys_toList.imp ?_
  intro a b hne heq
  exact hne (by rw [heq]; exact Std.ReflCmp.compare_self)

/-- No entry is listed twice. -/
theorem nodup_toList (m : NameMap α) : m.toList.Nodup :=
  (nodup_map_fst_toList m).of_map Prod.fst

/-- A new entry is added to the list of entries. -/
theorem toList_insert_perm {m : NameMap α} {name : String} (h : m[name]? = none) (value : α) :
    (m.insert name value).toList.Perm ((name, value) :: m.toList) := by
  have hnot : (name, value) ∉ m.toList := by
    rw [Std.ExtTreeMap.mem_toList_iff_getElem?_eq_some, h]
    simp
  rw [List.perm_ext_iff_of_nodup (nodup_toList _) (List.nodup_cons.2 ⟨hnot, nodup_toList m⟩)]
  rintro ⟨other, v⟩
  rw [List.mem_cons, Std.ExtTreeMap.mem_toList_iff_getElem?_eq_some,
    Std.ExtTreeMap.mem_toList_iff_getElem?_eq_some, Std.ExtTreeMap.getElem?_insert]
  by_cases heq : name = other
  · subst heq
    simp [h, eq_comm]
  · simp [heq, Ne.symm heq]

/-- A removed entry is taken from the list of entries. -/
theorem toList_erase_perm {m : NameMap α} {name : String} {value : α}
    (h : m[name]? = some value) : m.toList.Perm ((name, value) :: (m.erase name).toList) := by
  have hnone : (m.erase name)[name]? = none := by simp
  have hback : (m.erase name).insert name value = m := by
    refine Std.ExtTreeMap.ext_getElem? fun other => ?_
    rw [Std.ExtTreeMap.getElem?_insert, Std.ExtTreeMap.getElem?_erase]
    by_cases heq : name = other
    · subst heq
      simp [h]
    · simp [heq]
  have hperm := toList_insert_perm hnone value
  rwa [hback] at hperm

/-- A new entry adds its value to the values. -/
theorem values_insert_perm {m : NameMap α} {name : String} (h : m[name]? = none) (value : α) :
    (m.insert name value).values.Perm (value :: m.values) := by
  rw [values_eq_map_toList, values_eq_map_toList]
  exact (toList_insert_perm h value).map Prod.snd

/-- A removed entry takes its value from the values. -/
theorem values_erase_perm {m : NameMap α} {name : String} {value : α}
    (h : m[name]? = some value) : m.values.Perm (value :: (m.erase name).values) := by
  rw [values_eq_map_toList, values_eq_map_toList]
  exact (toList_erase_perm h).map Prod.snd

/-- The value that a search finds is the one under the first name whose value it looks for. -/
theorem exists_first_of_find?_values {m : NameMap α} {p : α → Bool} {value : α}
    (h : m.values.find? p = some value) :
    ∃ name : String, m[name]? = some value ∧ p value = true ∧
      ∀ (other : String) (v : α), m[other]? = some v → p v = true → name ≤ other := by
  rw [values_eq_map_toList, List.find?_map] at h
  obtain ⟨⟨name, value⟩, hfind, rfl⟩ := Option.map_eq_some_iff.1 h
  obtain ⟨hp, before, behind, hlist, hbefore⟩ := List.find?_eq_some_iff_append.1 hfind
  have hmem : (name, value) ∈ m.toList := by
    rw [hlist]
    exact List.mem_append_right _ List.mem_cons_self
  refine ⟨name, Std.ExtTreeMap.mem_toList_iff_getElem?_eq_some.1 hmem, hp, fun other v hv hpv => ?_⟩
  have hother := Std.ExtTreeMap.mem_toList_iff_getElem?_eq_some.2 hv
  have hordered := m.ordered_keys_toList
  rw [hlist, List.pairwise_append] at hordered
  rw [hlist] at hother
  rcases List.mem_append.1 hother with hother | hother
  · have hnot := hbefore _ hother
    simp [hpv] at hnot
  · rcases List.mem_cons.1 hother with heq | hother
    · obtain ⟨rfl, -⟩ := Prod.mk.inj heq
      exact String.le_refl _
    · have hlt : compare name other = .lt := (List.pairwise_cons.1 hordered.2.1).1 _ hother
      have hless : name < other := compareOfLessAndEq_eq_lt.1 hlt
      exact Std.le_of_lt hless

/-- Nothing is left out of a map whose values are all to be kept. -/
theorem filter_eq_self {m : NameMap α} {keep : α → Bool}
    (h : ∀ value ∈ m.values, keep value = true) : m.filter (fun _ value => keep value) = m := by
  refine Std.ExtTreeMap.ext_getElem? fun name => ?_
  rw [Std.ExtTreeMap.getElem?_filter']
  cases hname : m[name]? with
  | none => rfl
  | some value => exact Option.filter_some_pos (h value (mem_values.2 ⟨name, hname⟩))

section Rows

variable {entries : List (String × α)} {m : NameMap α} {name : String} {value : α}

/-- Insertions that spare taken names keep what is there, and add the first entry of each name. -/
theorem getElem?_foldl_insertIfNew_eq (entries : List (String × α)) (m : NameMap α)
    (name : String) :
    (entries.foldl (fun m entry => m.insertIfNew entry.1 entry.2) m)[name]? =
      (m[name]?).or (entries.lookup name) := by
  induction entries generalizing m with
  | nil => exact (Option.or_none).symm
  | cons entry rest ih =>
    rw [List.foldl_cons, ih, Std.ExtTreeMap.getElem?_insertIfNew, List.lookup_cons]
    by_cases heq : entry.1 = name
    · subst heq
      have hmem : entry.1 ∈ m ↔ (m[entry.1]?).isSome = true :=
        Std.ExtTreeMap.mem_iff_isSome_getElem?
      rw [beq_self_eq_true]
      cases hname : m[entry.1]? with
      | none =>
        rw [if_pos ⟨Std.ReflCmp.compare_self, by simp [hmem, hname]⟩]
        rfl
      | some v =>
        rw [if_neg (by simp [hmem, hname])]
        rfl
    · rw [if_neg fun hboth => heq (Std.LawfulEqCmp.compare_eq_iff_eq.1 hboth.1),
        beq_eq_false_iff_ne.2 (Ne.symm heq)]

/-- What a row of insertions that spare taken names leaves behind. -/
theorem getElem?_foldl_insertIfNew
    (h : (entries.foldl (fun m entry => m.insertIfNew entry.1 entry.2) m)[name]? = some value) :
    m[name]? = some value ∨ (name, value) ∈ entries := by
  rw [getElem?_foldl_insertIfNew_eq] at h
  rcases Option.or_eq_some_iff.1 h with hold | ⟨-, hnew⟩
  · exact .inl hold
  · obtain ⟨before, behind, rfl, -⟩ := List.lookup_eq_some_iff.1 hnew
    exact .inr (List.mem_append_right _ List.mem_cons_self)

/-- Insertions that spare taken names keep what is there. -/
theorem getElem?_foldl_insertIfNew_of_getElem? (h : m[name]? = some value) :
    (entries.foldl (fun m entry => m.insertIfNew entry.1 entry.2) m)[name]? = some value := by
  rw [getElem?_foldl_insertIfNew_eq, h]
  rfl

/-- Of entries under different names each is the first one of its name. -/
theorem lookup_of_mem (hnodup : (entries.map Prod.fst).Nodup) (h : (name, value) ∈ entries) :
    entries.lookup name = some value := by
  obtain ⟨before, behind, rfl⟩ := List.append_of_mem h
  refine List.lookup_eq_some_iff.2 ⟨before, behind, rfl, fun entry hentry => bne_iff_ne.2 ?_⟩
  rw [List.map_append, List.map_cons, List.nodup_append] at hnodup
  exact (hnodup.2.2 _ (List.mem_map_of_mem hentry) _ List.mem_cons_self).symm

/-- Of insertions under different names each counts unless its name is taken. -/
theorem getElem?_foldl_insertIfNew_of_mem (hnodup : (entries.map Prod.fst).Nodup)
    (h : (name, value) ∈ entries) :
    (entries.foldl (fun m entry => m.insertIfNew entry.1 entry.2) m)[name]? =
      some ((m[name]?).getD value) := by
  rw [getElem?_foldl_insertIfNew_eq, lookup_of_mem hnodup h]
  cases m[name]? <;> rfl

/-- Entries are looked up among those that are kept if their name is. -/
theorem lookup_filter (keep : String → Bool) (entries : List (String × α))
    (name : String) :
    (entries.filter fun entry => keep entry.1).lookup name =
      if keep name then entries.lookup name else none := by
  induction entries with
  | nil => exact (ite_self none).symm
  | cons entry rest ih =>
    obtain ⟨key, value⟩ := entry
    rw [List.filter_cons, List.lookup_cons]
    dsimp only
    by_cases heq : name = key
    · subst heq
      rw [beq_self_eq_true]
      split
      · rw [List.lookup_cons, beq_self_eq_true]
      · rw [ih, if_neg ‹_›]
    · rw [beq_eq_false_iff_ne.2 heq]
      split
      · rw [List.lookup_cons, beq_eq_false_iff_ne.2 heq]
        exact ih
      · exact ih

/-- The first entry of a name is found under it. -/
theorem lookup_toList (m : NameMap α) (name : String) : m.toList.lookup name = m[name]? := by
  cases hname : m[name]? with
  | none =>
    refine Option.eq_none_iff_forall_not_mem.2 fun value hvalue => ?_
    obtain ⟨before, behind, hlist, -⟩ := List.lookup_eq_some_iff.1 hvalue
    have hmem : (name, value) ∈ m.toList := by
      rw [hlist]
      exact List.mem_append_right _ List.mem_cons_self
    rw [Std.ExtTreeMap.mem_toList_iff_getElem?_eq_some, hname] at hmem
    exact absurd hmem (by simp)
  | some value =>
    exact lookup_of_mem (nodup_map_fst_toList m)
      (Std.ExtTreeMap.mem_toList_iff_getElem?_eq_some.2 hname)

end Rows

end FlatNet.NameMap

namespace FlatNet

/-- No name of a set is listed twice. -/
theorem NameSet.nodup_toList {names : NameSet} : names.toList.Nodup := by
  refine names.distinct_toList.imp ?_
  intro a b hne heq
  exact hne (by rw [heq]; exact Std.ReflCmp.compare_self)

end FlatNet
