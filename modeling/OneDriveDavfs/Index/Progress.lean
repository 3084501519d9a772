import OneDriveDavfs.Index.Runs

/-! The tree and the cursor of an index do not depend on each other.

No operation on the tree moves the cursor of the crawl, and none looks at it,
whatever the index.
-/

set_option autoImplicit false

namespace OneDriveDavfs

open Std Library.Collections

namespace Index

variable {idx : Index}

theorem progress_removeWithin (fuel : Nat) (idx : Index) (id : Id) :
    (removeWithin fuel idx id).progress = idx.progress := by
  induction fuel generalizing idx id with
  | zero => rfl
  | succ fuel ih =>
    have fold : ∀ (ids : List Id) (start : Index), (ids.foldl (removeWithin fuel) start).progress = start.progress := by
      intro ids
      induction ids with
      | nil => exact fun _ => rfl
      | cons first rest ihRest => exact fun start => (ihRest _).trans (ih start first)
    unfold removeWithin
    dsimp only
    split
    · exact progress_removeNode
    · exact (fold _ _).trans progress_removeNode

theorem progress_remove (idx : Index) (id : Id) : (idx.remove id).progress = idx.progress :=
  progress_removeWithin _ _ _

theorem progress_evictClash (idx : Index) (id p : Id) (name : String) :
    (idx.evictClash id p name).progress = idx.progress := by
  unfold evictClash
  split
  · rfl
  · exact progress_remove _ _

theorem progress_apply (idx : Index) (it : DeltaItem) : (idx.apply it).progress = idx.progress := by
  unfold apply
  split
  · rfl
  · split
    · exact progress_remove _ _
    · split
      · rfl
      · split
        · rfl
        · exact (progress_evictClash _ _ _ _).trans (detachMoved_same _ _ _ _).2.2

theorem progress_applyAll (items : List DeltaItem) (idx : Index) :
    (items.foldl apply idx).progress = idx.progress := by
  induction items generalizing idx with
  | nil => rfl
  | cons it rest ih => exact (ih _).trans (progress_apply idx it)

theorem progress_sweepOrphans (idx : Index) : idx.sweepOrphans.progress = idx.progress :=
  (sweepOrphans_pruned idx).progress

theorem progress_upsertAtPath (idx : Index) (path : String) (itemMeta : ItemMeta) :
    (idx.upsertAtPath path itemMeta).1.progress = idx.progress := by
  unfold upsertAtPath
  split
  · rfl
  · dsimp only
    split
    · rfl
    · split
      · rfl
      · exact progress_apply _ _

theorem progress_removeAtPath (idx : Index) (path : String) :
    (idx.removeAtPath path).1.progress = idx.progress := by
  unfold removeAtPath
  split
  · exact progress_remove _ _
  · rfl

theorem progress_moveAtPath (idx : Index) (source dest : String) :
    (idx.moveAtPath source dest).1.progress = idx.progress := by
  unfold moveAtPath
  split
  · rfl
  · split
    · rfl
    · dsimp only
      split
      · rfl
      · split
        · rfl
        · exact progress_apply _ _

/-! ## Another cursor on the same tree -/

def withProgress (idx : Index) (token pending : Option String) (complete : Bool) (generation : UInt64) : Index :=
  { idx with deltaToken := token, pendingNextLink := pending, crawlComplete := complete, generation := generation }

section With
variable {token pending : Option String} {complete : Bool} {generation : UInt64}

theorem foldl_withProgress {α : Type} {f : Index → α → Index}
    (each : ∀ idx a, f (idx.withProgress token pending complete generation) a =
      (f idx a).withProgress token pending complete generation) (list : List α) (idx : Index) :
    list.foldl f (idx.withProgress token pending complete generation) =
      (list.foldl f idx).withProgress token pending complete generation := by
  induction list generalizing idx with
  | nil => rfl
  | cons a rest ih => rw [List.foldl_cons, each, ih, List.foldl_cons]

theorem removeNode_withProgress (idx : Index) (id : Id) :
    (idx.withProgress token pending complete generation).removeNode id =
      (idx.removeNode id).withProgress token pending complete generation := by
  have nodes : (idx.withProgress token pending complete generation).nodes = idx.nodes := rfl
  unfold removeNode
  rw [nodes]
  cases idx.nodes[id]? with
  | none => rfl
  | some node =>
    cases parent : node.parent with
    | none =>
      simp only [parent]
      rfl
    | some p =>
      simp only [parent]
      rfl

theorem removeWithin_withProgress (fuel : Nat) (idx : Index) (id : Id) :
    removeWithin fuel (idx.withProgress token pending complete generation) id =
      (removeWithin fuel idx id).withProgress token pending complete generation := by
  induction fuel generalizing idx id with
  | zero => rfl
  | succ fuel ih =>
    have kids : ((idx.removeNode id).withProgress token pending complete generation).kids =
        (idx.removeNode id).kids := rfl
    unfold removeWithin
    dsimp only
    rw [removeNode_withProgress, kids]
    cases (idx.removeNode id).kids[id]? with
    | none => rfl
    | some children =>
      exact foldl_withProgress ih _ { idx.removeNode id with kids := (idx.removeNode id).kids.erase id }

theorem remove_withProgress (idx : Index) (id : Id) :
    (idx.withProgress token pending complete generation).remove id =
      (idx.remove id).withProgress token pending complete generation :=
  removeWithin_withProgress _ _ _

theorem detachMoved_withProgress (idx : Index) (id p : Id) (name : String) :
    (idx.withProgress token pending complete generation).detachMoved id p name =
      (idx.detachMoved id p name).withProgress token pending complete generation := by
  have nodes : (idx.withProgress token pending complete generation).nodes = idx.nodes := rfl
  unfold detachMoved
  rw [nodes]
  cases idx.nodes[id]? with
  | none => rfl
  | some old =>
    dsimp only
    split
    · cases old.parent <;> rfl
    · rfl

theorem evictClash_withProgress (idx : Index) (id p : Id) (name : String) :
    (idx.withProgress token pending complete generation).evictClash id p name =
      (idx.evictClash id p name).withProgress token pending complete generation := by
  have clash : (idx.withProgress token pending complete generation).clash id p name = idx.clash id p name := rfl
  unfold evictClash
  rw [clash]
  cases idx.clash id p name with
  | none => rfl
  | some cid => exact remove_withProgress idx cid

theorem apply_withProgress (idx : Index) (it : DeltaItem) :
    (idx.withProgress token pending complete generation).apply it =
      (idx.apply it).withProgress token pending complete generation := by
  unfold apply
  split
  · rfl
  · split
    · exact remove_withProgress idx it.id
    · split
      · rfl
      · cases it.parentId with
        | none => rfl
        | some p =>
          dsimp only
          rw [detachMoved_withProgress, evictClash_withProgress]
          rfl

theorem applyAll_withProgress (items : List DeltaItem) (idx : Index) :
    items.foldl apply (idx.withProgress token pending complete generation) =
      (items.foldl apply idx).withProgress token pending complete generation :=
  foldl_withProgress apply_withProgress items idx

end With

end Index

end OneDriveDavfs
