import OneDriveDavfs.Snapshot.Store

/-! Directory listings from the snapshot: `propfind_from_index` of `src/dav.rs`.

The answer is the list of its entries; how they are written as XML is left out.
-/

set_option autoImplicit false

namespace OneDriveDavfs

open Library.Separated Library.Wire Snapshot

structure DavEntry where
  href : String
  isDir : Bool
  size : UInt64
  lastModified : UInt64
  etag : String
  deriving DecidableEq, Repr

namespace Dav

/-- `path.trim_matches('/').is_empty()`. -/
def onlySlashes (path : String) : Bool :=
  ((path.toList.dropWhile (· == '/')).rdropWhile (· == '/')).isEmpty

def entryFromInfo (path : String) (info : ChildInfo) (isSelf : Bool) : DavEntry where
  href :=
    if isSelf then if onlySlashes path then "/" else normalizePath path
    else if onlySlashes path then "/" ++ info.name
    else String.ofList (trimEndSlashes path) ++ "/" ++ info.name
  isDir := info.isDir
  size := info.size
  lastModified := info.mtime
  etag := info.etag

/-- The entries for what the lookup found; `depth` is the header as it came. -/
def entriesOf (path : String) (depth : Option String) : Lookup → List DavEntry
  | .dir info children =>
    entryFromInfo path info true :: if depth ≠ some "0" then children.map (entryFromInfo path · false) else []
  | .file info => [entryFromInfo path info true]

/-- Nothing means that Graph is asked instead. -/
def propfindFromIndex (P : Platform) (indexEnabled : Bool) (dir : Descriptor) (path : String)
    (depth : Option String) : Result (Option (List DavEntry)) :=
  if indexEnabled then
    match lookupFile P dir path with
    | .ok hit => .ok (hit.map (entriesOf path depth))
    | .error (.error _) => .ok none
    | .error .trap => .error .trap
  else .ok none

/-! ## Where an entry points -/

section Hrefs
variable {path : String} {info : ChildInfo}

theorem segments_of_onlySlashes (only : onlySlashes path = true) : segments path = [] := by
  have trimmed : (path.toList.dropWhile (· == '/')).rdropWhile (· == '/') = [] := by
    simpa [onlySlashes] using only
  have slashes := List.rdropWhile_eq_nil_iff.mp trimmed
  have nothing : path.toList.dropWhile (· == '/') = [] := by
    by_contra some
    obtain ⟨first, rest, split⟩ := List.exists_cons_of_ne_nil some
    have stops := List.head_dropWhile_not (· == '/') some
    have isSlash := slashes _ (List.head_mem some)
    rw [isSlash] at stops
    cases stops
  have all := List.dropWhile_eq_nil_iff.mp nothing
  have ends : trimEndSlashes path = [] := List.rdropWhile_eq_nil_iff.mpr all
  rw [← segments_trimmed path, ends]
  decide

theorem href_self : (entryFromInfo path info true).href = normalizePath path := by
  unfold entryFromInfo
  dsimp only
  rw [if_pos rfl]
  split
  · rename_i only
    rw [normalizePath, segments_of_onlySlashes only]
    decide
  · rfl

theorem segments_href_child (clean : CleanName info.name) :
    segments (entryFromInfo path info false).href = segments path ++ [info.name] := by
  have appended : ∀ front : List Char, segments (String.ofList front ++ "/" ++ info.name) =
      segments (String.ofList front) ++ [info.name] := by
    intro front
    have text : (String.ofList front ++ "/" ++ info.name).toList = front ++ '/' :: info.name.toList := by simp
    rw [segments, text, pieces_append_sep, pieces_of_clean clean, List.map_append, segments, String.toList_ofList]
    simp
  unfold entryFromInfo
  dsimp only
  rw [if_neg Bool.false_ne_true]
  split
  · rename_i only
    rw [segments_of_onlySlashes only]
    exact appended []
  · rw [appended, segments_trimmed]

end Hrefs

end Dav

end OneDriveDavfs
