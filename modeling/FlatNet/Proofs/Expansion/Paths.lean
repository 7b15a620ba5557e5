import FlatNet.Proofs.Element
import FlatNet.Proofs.Expansion.Occurrence

/-!
# Ways to instances

Within a definition names are unique, and so no two instances of a netlist are reached on one way,
although they may get one flat name.
-/

set_option autoImplicit false

namespace FlatNet

/-- Elements that are found under their names have different names. -/
theorem Keyed.nodup_refDes {elements : NameMap Element} (h : Keyed elements) :
    (elements.values.map Element.refDes).Nodup := by
  have hnames : elements.values.map Element.refDes = elements.toList.map Prod.fst := by
    rw [NameMap.values_eq_map_toList, List.map_map]
    refine List.map_congr_left fun entry hentry => ?_
    exact h entry.1 entry.2 (Std.ExtTreeMap.mem_toList_iff_getElem?_eq_some.1 hentry)
  rw [hnames]
  exact NameMap.nodup_map_fst_toList elements

namespace Expansion.Setting

/-- In the definitions that instances are expanded from, elements are found under their names. -/
def Keyed (s : Setting) : Prop :=
  ∀ (key : PrototypeKey) (proto : Definition), s.prototype? key = some proto →
    FlatNet.Keyed proto.elements

variable {s : Setting}

/-- A place inside an instance has the path of the instance, with its own name in front. -/
theorem path_of_mem_inside {o c : Occurrence} (hc : c ∈ s.inside o) :
    c.path = c.inner.refDes :: o.path := by
  unfold inside at hc
  split at hc
  · exact absurd hc List.not_mem_nil
  · obtain ⟨copy, -, rfl⟩ := List.mem_map.1 hc
    rfl

/-- The ways inside an instance differ. -/
theorem nodup_path_inside (hs : s.Keyed) (o : Occurrence) :
    ((s.inside o).map Occurrence.path).Nodup := by
  cases hinst : s.instance? o.outer with
  | none =>
    unfold inside
    rw [hinst]
    exact List.nodup_nil
  | some i =>
    obtain ⟨-, key, -, hproto⟩ := instance?_eq_some_iff.1 hinst
    have hways : (s.inside o).map Occurrence.path =
        (i.proto.elements.values.map Element.refDes).map fun name => name :: o.path := by
      have hfst : (i.copies s.globals).map Prod.fst = i.proto.elements.values :=
        i.map_fst_copyAll s.globals _ _
      rw [inside_of_instance? hinst, ← hfst, List.map_map, List.map_map, List.map_map]
      rfl
    rw [hways]
    refine List.Nodup.map (fun name name' heq => ?_) (hs key i.proto hproto).nodup_refDes
    exact (List.cons.inj heq).1

/-- The ways to all instances of a row and below it differ if those of the row do. -/
theorem nodup_path_instancesFrom (hs : s.Keyed) (n depth : Nat)
    {level : List Occurrence} (hdepth : ∀ o ∈ level, o.path.length = depth)
    (hlevel : (level.map Occurrence.path).Nodup) :
    ((s.instancesFrom n level).map Occurrence.path).Nodup ∧
      ∀ o ∈ s.instancesFrom n level, depth ≤ o.path.length := by
  induction n generalizing depth level with
  | zero => exact ⟨List.nodup_nil, fun o ho => absurd ho List.not_mem_nil⟩
  | succ n ih =>
    -- ways of one row have one length, and those below are longer
    have hnextDepth : ∀ c ∈ (level.flatMap s.inside).filter Occurrence.isInstance,
        c.path.length = depth + 1 := by
      intro c hc
      obtain ⟨o, ho, hmem⟩ := List.mem_flatMap.1 (List.mem_of_mem_filter hc)
      rw [path_of_mem_inside hmem, List.length_cons, hdepth o ho]
    have hinside : ((level.flatMap s.inside).map Occurrence.path).Nodup := by
      rw [List.map_flatMap, List.nodup_flatMap]
      refine ⟨fun o _ => nodup_path_inside hs o, ?_⟩
      refine (List.pairwise_map.1 hlevel).imp fun {o o'} hne => ?_
      intro way hway hway'
      obtain ⟨c, hc, rfl⟩ := List.mem_map.1 hway
      obtain ⟨c', hc', heq⟩ := List.mem_map.1 hway'
      rw [path_of_mem_inside hc, path_of_mem_inside hc'] at heq
      exact hne (List.cons.inj heq).2.symm
    have hnext : (((level.flatMap s.inside).filter Occurrence.isInstance).map
        Occurrence.path).Nodup := hinside.sublist ((List.filter_sublist).map Occurrence.path)
    obtain ⟨hbelow, hdeeper⟩ := ih (depth + 1) hnextDepth hnext
    rw [instancesFrom]
    refine ⟨?_, fun o ho => ?_⟩
    · rw [List.map_append]
      refine List.nodup_append'.2 ⟨hlevel, hbelow, ?_⟩
      intro way hway hway'
      obtain ⟨o, ho, rfl⟩ := List.mem_map.1 hway
      obtain ⟨o', ho', heq⟩ := List.mem_map.1 hway'
      have hshort := hdepth o ho
      have hlong := hdeeper o' ho'
      rw [heq] at hlong
      omega
    · rcases List.mem_append.1 ho with ho | ho
      · exact Nat.le_of_eq (hdepth o ho).symm
      · exact Nat.le_of_succ_le (hdeeper o ho)

/-- No two instances of a netlist are reached on one way. -/
theorem nodup_path_expanded (hs : s.Keyed) {root : Definition}
    (hroot : FlatNet.Keyed root.elements) : ((s.expanded root).map Occurrence.path).Nodup := by
  have htops : ((tops root).map Occurrence.path).Nodup := by
    have hways : (tops root).map Occurrence.path =
        (root.elements.values.map Element.refDes).map fun name => [name] := by
      rw [tops, List.map_map, List.map_map]
      rfl
    rw [hways]
    exact List.Nodup.map (fun name name' heq => (List.cons.inj heq).1) hroot.nodup_refDes
  refine (nodup_path_instancesFrom hs s.maxDepth 1 (fun o ho => ?_)
    (htops.sublist ((List.filter_sublist).map Occurrence.path))).1
  obtain ⟨e, -, rfl⟩ := List.mem_map.1 (List.mem_of_mem_filter ho)
  rfl

end Expansion.Setting

end FlatNet
