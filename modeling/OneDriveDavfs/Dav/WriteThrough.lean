import OneDriveDavfs.Index.Progress
import OneDriveDavfs.Snapshot.Store

/-! The local writes that patch the live snapshot: `src/dav.rs`.

Each is what happens after Graph has taken the change, with the item of its
answer when that parsed.
-/

set_option autoImplicit false

namespace OneDriveDavfs

open Snapshot

namespace Dav

def applyOrUpsert (idx : Index) (item : Option DeltaItem) (path : String) (itemMeta : ItemMeta) : Index × Bool :=
  match item with
  | none => idx.upsertAtPath path itemMeta
  | some it =>
    let idx := idx.apply it
    if (idx.resolve path).isSome then (idx, true) else idx.upsertAtPath path itemMeta

def putMeta (size : UInt64) : ItemMeta := ⟨false, size, 0, ""⟩

def mkcolMeta : ItemMeta := ⟨true, 0, 0, ""⟩

inductive LocalWrite where
  | put (path : String) (size : UInt64) (item : Option DeltaItem)
  | mkcol (path : String) (item : Option DeltaItem)
  | delete (path : String)
  | move (path destination : String) (item : Option DeltaItem)
  deriving DecidableEq, Repr

def moveThrough (idx : Index) (item : Option DeltaItem) (path destination : String) : Index × Bool :=
  match item with
  | none => idx.moveAtPath path destination
  | some it =>
    let idx := idx.apply it
    if (idx.resolve destination).isSome then (idx, true) else idx.moveAtPath path destination

/-- The closure that the handler gives to `write_through`. -/
def LocalWrite.run (idx : Index) : LocalWrite → Index × Bool
  | .put path size item => applyOrUpsert idx item path (putMeta size)
  | .mkcol path item => applyOrUpsert idx item path mkcolMeta
  | .delete path => idx.removeAtPath path
  | .move path destination item => moveThrough idx item path destination

/-- `write_through` with the index enabled. -/
def writeThrough (P : Platform) (order : Index → List Id) (now : UInt64) (files : Files) (write : LocalWrite) :
    List FileOp := mutate P order now files (LocalWrite.run · write)

theorem progress_applyOrUpsert (idx : Index) (item : Option DeltaItem) (path : String) (itemMeta : ItemMeta) :
    (applyOrUpsert idx item path itemMeta).1.progress = idx.progress := by
  unfold applyOrUpsert
  split
  · exact Index.progress_upsertAtPath _ _ _
  · dsimp only
    split
    · exact Index.progress_apply _ _
    · exact (Index.progress_upsertAtPath _ _ _).trans (Index.progress_apply _ _)

theorem progress_moveThrough (idx : Index) (item : Option DeltaItem) (path destination : String) :
    (moveThrough idx item path destination).1.progress = idx.progress := by
  unfold moveThrough
  split
  · exact Index.progress_moveAtPath _ _ _
  · dsimp only
    split
    · exact Index.progress_apply _ _
    · exact (Index.progress_moveAtPath _ _ _).trans (Index.progress_apply _ _)

theorem LocalWrite.progress_run (idx : Index) (write : LocalWrite) : (write.run idx).1.progress = idx.progress := by
  cases write with
  | put path size item => exact progress_applyOrUpsert _ _ _ _
  | mkcol path item => exact progress_applyOrUpsert _ _ _ _
  | delete path => exact Index.progress_removeAtPath _ _
  | move path destination item => exact progress_moveThrough _ _ _ _

end Dav

end OneDriveDavfs
