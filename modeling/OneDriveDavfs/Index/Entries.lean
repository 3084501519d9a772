import OneDriveDavfs.Index.Invariant

/-! Where the entries of `kids` come from.

A path is resolved along the entries, and no operation but `apply` makes one:
that of the record it places. Nothing is assumed of the index.
-/

set_option autoImplicit false

namespace OneDriveDavfs.Index

open Std Library.Collections

section Entries
variable {idx : Index} {id p q c : Id} {name n : String}

theorem mem_kidsOf_of_removeNode (member : (n, c) ∈ (idx.removeNode id).kidsOf q) : (n, c) ∈ idx.kidsOf q := by
  rcases found : idx.nodes[id]? with _ | node
  · simpa [removeNode, found] using member
  · rcases parent : node.parent with _ | pid
    · simpa [removeNode, found, parent, kidsOf] using member
    · have same : (idx.removeNode id).kidsOf q = (idx.dropKid pid node.name id).kidsOf q := by
        simp [removeNode, found, parent, kidsOf, dropKid]
      rw [same, mem_kidsOf_dropKid] at member
      exact member.1

theorem mem_kidsOf_of_removeOne (member : (n, c) ∈ (idx.removeOne id).kidsOf q) : (n, c) ∈ idx.kidsOf q := by
  refine @mem_kidsOf_of_removeNode idx id _ _ _ ?_
  rw [removeOne, kidsOf, lookup_erase] at member
  split at member
  · simp at member
  · exact member

theorem mem_kidsOf_of_removeWithin (fuel : Nat) (member : (n, c) ∈ (removeWithin fuel idx id).kidsOf q) :
    (n, c) ∈ idx.kidsOf q := by
  induction fuel generalizing idx id with
  | zero => exact member
  | succ fuel ih =>
    have children (cs : List Id) (start : Index) (inLast : (n, c) ∈ (cs.foldl (removeWithin fuel) start).kidsOf q) :
        (n, c) ∈ start.kidsOf q := by
      induction cs generalizing start with
      | nil => exact inLast
      | cons child rest further => exact ih (further _ inLast)
    rw [removeWithin_succ] at member
    exact mem_kidsOf_of_removeOne (children _ _ member)

theorem mem_kidsOf_of_detachMoved (member : (n, c) ∈ (idx.detachMoved id p name).kidsOf q) : (n, c) ∈ idx.kidsOf q := by
  unfold detachMoved at member
  split at member
  · exact member
  · split at member
    · split at member
      · exact member
      · exact (mem_kidsOf_dropKid.mp member).1
    · exact member

theorem mem_kidsOf_of_evictClash (member : (n, c) ∈ (idx.evictClash id p name).kidsOf q) : (n, c) ∈ idx.kidsOf q := by
  unfold evictClash at member
  split at member
  · exact member
  · exact mem_kidsOf_of_removeWithin _ member

/-- A new entry is that of the record, and the record is no tombstone. -/
theorem mem_kidsOf_of_apply {it : DeltaItem} (member : (n, c) ∈ (idx.apply it).kidsOf q) :
    (n, c) ∈ idx.kidsOf q ∨ (it.deleted = false ∧ n = it.name) := by
  unfold apply at member
  split at member
  · exact .inl member
  · split at member
    · exact .inl (mem_kidsOf_of_removeWithin _ member)
    · rename_i live
      split at member
      · exact .inl member
      · split at member
        · exact .inl member
        · rcases mem_kidsOf_attach.mp member with ⟨_, own, _⟩ | before
          · exact .inr ⟨by simpa using live, own⟩
          · exact .inl (mem_kidsOf_of_detachMoved (mem_kidsOf_of_evictClash before))

theorem mem_kidsOf_of_applyAll (items : List DeltaItem) (member : (n, c) ∈ (items.foldl Index.apply idx).kidsOf q) :
    (n, c) ∈ idx.kidsOf q ∨ ∃ it ∈ items, it.deleted = false ∧ n = it.name := by
  induction items generalizing idx with
  | nil => exact .inl member
  | cons it rest ih =>
    rcases ih member with first | ⟨later, listed, own⟩
    · exact (mem_kidsOf_of_apply first).imp_right fun own => ⟨it, List.mem_cons_self, own⟩
    · exact .inr ⟨later, List.mem_cons_of_mem _ listed, own⟩

/-! ## Which ids are stored -/

theorem absent_removeWithin (fuel : Nat) {x : Id} (absent : idx.nodes[x]? = none) :
    (removeWithin fuel idx id).nodes[x]? = none := by
  induction fuel generalizing idx id with
  | zero => exact absent
  | succ fuel ih =>
    have children (cs : List Id) (start : Index) (before : start.nodes[x]? = none) :
        (cs.foldl (removeWithin fuel) start).nodes[x]? = none := by
      induction cs generalizing start with
      | nil => exact before
      | cons child rest further => exact further _ (ih before)
    rw [removeWithin_succ]
    refine children _ _ ?_
    rw [removeOne, nodes_removeNode, absent]
    split <;> rfl

theorem absent_apply {it : DeltaItem} {x : Id} (other : x = "" ∨ x ≠ it.id) (absent : idx.nodes[x]? = none) :
    (idx.apply it).nodes[x]? = none := by
  unfold apply
  split
  · exact absent
  · rename_i named
    have differs : x ≠ it.id := other.elim (fun empty same => named (same.symm.trans empty)) fun differs => differs
    split
    · exact absent_removeWithin _ absent
    · split
      · rw [lookup_insert, if_neg differs]
        exact absent
      · split
        · exact absent
        · rename_i parentId _
          have detached : (idx.detachMoved it.id parentId it.name).nodes[x]? = none := by
            rw [(detachMoved_same idx it.id parentId it.name).1]
            exact absent
          rw [attach, lookup_insert, if_neg differs, evictClash]
          split
          · exact detached
          · exact absent_removeWithin _ detached

theorem absent_upsertAtPath {x : Id} (empty : x = "") (absent : idx.nodes[x]? = none) (path : String)
    (itemMeta : ItemMeta) : (idx.upsertAtPath path itemMeta).1.nodes[x]? = none := by
  unfold upsertAtPath
  split
  · rw [lookup_modify]
    split <;> simp [absent]
  · dsimp only
    split
    · exact absent
    · split
      · exact absent
      · exact absent_apply (.inl empty) absent

theorem absent_moveAtPath {x : Id} (empty : x = "") (absent : idx.nodes[x]? = none) (source dest : String) :
    (idx.moveAtPath source dest).1.nodes[x]? = none := by
  unfold moveAtPath
  split
  · exact absent
  · split
    · exact absent
    · dsimp only
      split
      · exact absent
      · split
        · exact absent
        · exact absent_apply (.inl empty) absent

/-! ## Names of a path -/

theorem exists_entry_of_resolveFrom {cur x : Id} {segs : List String} (resolves : idx.resolveFrom cur segs = some x)
    (member : name ∈ segs) : ∃ q c, (name, c) ∈ idx.kidsOf q := by
  induction segs generalizing cur with
  | nil => cases member
  | cons seg rest ih =>
    simp only [resolveFrom, Option.bind_eq_bind, Option.bind_eq_some_iff] at resolves
    obtain ⟨set, found, kid, first, further⟩ := resolves
    rcases List.mem_cons.mp member with rfl | later
    · have own : kid.1 = name := by simpa using List.find?_some first
      refine ⟨cur, kid.2, ?_⟩
      rw [kidsOf, found, ← own]
      exact ExtTreeSet.mem_toList.mp (List.mem_of_find?_eq_some first)
    · exact ih further later

theorem exists_entry_of_resolve {path : String} {x : Id} (resolves : idx.resolve path = some x)
    (member : name ∈ segments path) : ∃ q c, (name, c) ∈ idx.kidsOf q := by
  rw [resolve, Option.bind_eq_bind, Option.bind_eq_some_iff] at resolves
  obtain ⟨root, _, down⟩ := resolves
  exact exists_entry_of_resolveFrom down member

end Entries

end OneDriveDavfs.Index
