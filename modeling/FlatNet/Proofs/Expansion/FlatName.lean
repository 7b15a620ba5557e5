import FlatNet.Proofs.Expansion.Occurrence

/-!
# Flat names

A flat name joins the names on the way to a place by underscores, which may occur in names as well.
What can be read off a flat name are its pieces between underscores, and so two ways have one flat
name exactly if they break into the same pieces.
-/

set_option autoImplicit false

namespace FlatNet.Expansion

/-- The pieces between the underscores of several names. -/
def pieces (path : List String) : List (List Char) :=
  path.flatMap fun name => name.toList.splitOn '_'

/-- The pieces of names one after another are those of the first and those of the others. -/
theorem pieces_cons (name : String) (rest : List String) :
    pieces (name :: rest) = name.toList.splitOn '_' ++ pieces rest := List.flatMap_cons

/-- The pieces of one name are what stands between its underscores. -/
theorem pieces_singleton (name : String) : pieces [name] = name.toList.splitOn '_' := by
  rw [pieces_cons]
  exact List.append_nil _

/-- A flat name has the pieces of the names that it joins. -/
theorem splitOn_flatName {path : List String} (h : path ≠ []) :
    (flatName path).toList.splitOn '_' = pieces path := by
  induction path with
  | nil => exact absurd rfl h
  | cons name rest ih =>
    cases rest with
    | nil => exact (pieces_singleton name).symm
    | cons next rest =>
      have hjoined : (flatName (name :: next :: rest)).toList =
          name.toList ++ '_' :: (flatName (next :: rest)).toList := by
        show (name ++ "_" ++ flatName (next :: rest)).toList = _
        rw [String.toList_append, String.toList_append, List.append_assoc]
        rfl
      rw [hjoined, List.splitOn_append_cons_self, ih (List.cons_ne_nil next rest)]
      exact (pieces_cons name (next :: rest)).symm

/-- Two ways have one flat name exactly if they break into the same pieces. -/
theorem flatName_eq_iff {path other : List String} (h : path ≠ []) (hother : other ≠ []) :
    flatName path = flatName other ↔ pieces path = pieces other := by
  rw [← splitOn_flatName h, ← splitOn_flatName hother]
  constructor
  · intro heq
    rw [heq]
  · intro heq
    have hjoin := congrArg (List.intercalate ['_']) heq
    rw [List.intercalate_splitOn, List.intercalate_splitOn] at hjoin
    exact String.toList_inj.1 hjoin

/-- Names without underscores are their own pieces. -/
theorem pieces_of_forall_not_mem {path : List String} (h : ∀ name ∈ path, '_' ∉ name.toList) :
    pieces path = path.map String.toList := by
  induction path with
  | nil => rfl
  | cons name rest ih =>
    obtain ⟨hname, hrest⟩ := List.forall_mem_cons.1 h
    have hsingle : name.toList.splitOn '_' = [name.toList] := by
      rw [List.splitOn_eq_splitOnP]
      refine List.splitOnP_eq_singleton fun c hc => ?_
      have hne : c ≠ '_' := fun heq => hname (heq ▸ hc)
      simpa using hne
    rw [pieces_cons, hsingle, ih hrest]
    rfl

/-- Names without underscores are found again in the flat name that joins them. -/
theorem eq_of_flatName_eq {path other : List String} (hpath : path ≠ []) (hother : other ≠ [])
    (hnames : ∀ name ∈ path, '_' ∉ name.toList) (hothers : ∀ name ∈ other, '_' ∉ name.toList)
    (h : flatName path = flatName other) : path = other := by
  have hpieces := (flatName_eq_iff hpath hother).1 h
  rw [pieces_of_forall_not_mem hnames, pieces_of_forall_not_mem hothers] at hpieces
  exact List.map_injective_iff.2 (fun a b hab => String.toList_inj.1 hab) hpieces

end FlatNet.Expansion
