import OneDriveDavfs.Dav.Listing
import OneDriveDavfs.Dav.RequestPath
import OneDriveDavfs.Graph.Item

/-! The addresses of the entries of a listing, and the requests they lead to.

An entry is made from the snapshot or from an item of Graph; its address is
percent-encoded, with a slash behind it for a directory.
-/

set_option autoImplicit false

namespace OneDriveDavfs

open Library.Separated Library.Wire Snapshot

namespace Dav

def toEntry (path : String) (item : Graph.GraphItem) : DavEntry where
  href :=
    if onlySlashes path then "/" ++ item.name else String.ofList (trimEndSlashes path) ++ "/" ++ item.name
  isDir := item.isDir
  size := item.size
  lastModified := item.lastModified
  etag := item.etag

def parentOf (path : String) : String :=
  match rfind '/' (trimEndSlashes path) with
  | some idx => String.ofList (path.toList.take idx)
  | none => ""

/-- The entry of the path itself when Graph is asked; the drive root is named "root" by Graph. -/
def selfEntry (path : String) (item : Graph.GraphItem) : DavEntry :=
  let entry := toEntry (parentOf path) item
  if onlySlashes path then { entry with href := "/" } else entry

end Dav

def Xml.hrefText (entry : DavEntry) : String :=
  let href := Xml.pctEncode entry.href
  if entry.isDir && !href.toList.getLast?.any (· = '/') then href ++ "/" else href

def requestPath (target : String) : Except String String := sanitizePath (rawPath target)

def childPath (path name : String) : String := if path = "/" then "/" ++ name else path ++ "/" ++ name

namespace Dav

theorem href_toEntry (path : String) (item : Graph.GraphItem) (info : ChildInfo) (same : info.name = item.name) :
    (toEntry path item).href = (entryFromInfo path info false).href := by
  simp only [toEntry, entryFromInfo, same, if_neg Bool.false_ne_true]

/-- The address of an entry whose href spells good names leads to the canonical path of the names. -/
theorem requestPath_hrefText {entry : DavEntry} (printable : Printable entry.href)
    (good : ∀ name ∈ segments entry.href, name ≠ "." ∧ name ≠ "..") :
    requestPath (Xml.hrefText entry) = .ok (joinPath (segments entry.href)) := by
  have plain := sanitizePath_pctEncode printable good
  unfold requestPath Xml.hrefText
  dsimp only
  split
  · have slashed : segments (entry.href ++ "/") = segments entry.href := by
      have nothing : pieces '/' ([] : List Char) = [] := by simp
      simp only [segments, String.toList_append]
      have slash : "/".toList = '/' :: [] := rfl
      rw [slash, pieces_append_sep, nothing, List.append_nil]
    have whole := sanitizePath_pctEncode (printable.append printable_slash) (slashed.symm ▸ good)
    rw [← pctEncode_slash, rawPath_pctEncode, whole, slashed]
  · rw [rawPath_pctEncode, plain]

theorem segments_parentOf (path : String) : segments (parentOf path) = (segments path).dropLast := by
  have atRoot : segments "" = segments "/" := by decide
  rw [← segments_parentPath path, parentOf, parentPath]
  have front : ∃ tail, path.toList = trimEndSlashes path ++ tail := by
    obtain ⟨tail, whole⟩ := List.rdropWhile_prefix (· == '/') (l := path.toList)
    exact ⟨tail, whole.symm⟩
  rcases rfind_cases '/' (trimEndSlashes path) with ⟨_, position⟩ | ⟨before, last, split, _, position⟩
  · rw [position]
    exact atRoot
  · obtain ⟨tail, whole⟩ := front
    have taken : path.toList.take before.length = (trimEndSlashes path).take before.length := by
      rw [whole, List.take_append_of_le_length]
      rw [split, List.length_append]
      omega
    rw [position]
    dsimp only
    rw [taken]
    rcases before with _ | ⟨c, before⟩
    · exact atRoot
    · rfl

theorem childPath_joinPath {segs : List String} (name : String) (clean : ∀ n ∈ segs, CleanName n) :
    childPath (joinPath segs) name = joinPath (segs ++ [name]) := by
  by_cases empty : segs = []
  · subst empty
    rfl
  · have other : joinPath segs ≠ "/" := joinPath_ne_root clean empty
    rw [childPath, if_neg other, ← String.toList_inj]
    rw [toList_joinPath (by simp), String.toList_append, String.toList_append, toList_joinPath empty]
    simp

theorem printable_of_subset {s t : String} (printable : Printable s) (subset : ∀ c ∈ t.toList, c ∈ s.toList) :
    Printable t := fun c member => printable c (subset c member)

theorem printable_href {path : String} (printable : Printable path) {info : ChildInfo}
    (name : Printable info.name) : Printable (entryFromInfo path info false).href := by
  have front : Printable (String.ofList (trimEndSlashes path)) :=
    printable_of_subset printable fun c member => by
      rw [String.toList_ofList] at member
      exact (List.rdropWhile_prefix _ _).subset member
  unfold entryFromInfo
  dsimp only
  rw [if_neg Bool.false_ne_true]
  split
  · exact printable_slash.append name
  · exact (front.append printable_slash).append name

/-! ## Every address leads back -/

/-- The entry of a child of the directory, from the snapshot or from Graph. -/
def ChildEntry (path name : String) (entry : DavEntry) : Prop :=
  (∃ info : ChildInfo, info.name = name ∧ entry = entryFromInfo path info false) ∨
    ∃ item : Graph.GraphItem, item.name = name ∧ entry = toEntry path item

structure HrefsLeadBack (path : String) : Prop where
  child : ∀ name entry, GoodName name → ChildEntry path name entry →
    requestPath (Xml.hrefText entry) = .ok (childPath path name)
  self : ∀ info, requestPath (Xml.hrefText (entryFromInfo path info true)) = .ok path
  live : ∀ item : Graph.GraphItem, (path ≠ "/" → item.name = lastSegment path) →
    requestPath (Xml.hrefText (selfEntry path item)) = .ok path
  distinct : ∀ name name' entry entry', GoodName name → GoodName name' → ChildEntry path name entry →
    ChildEntry path name' entry' → Xml.hrefText entry = Xml.hrefText entry' → name = name'

section Canonical
variable {path : String} (spelled : path = joinPath (segments path)) (good : ∀ name ∈ segments path, GoodName name)
include spelled good

theorem printable_of_canonical : Printable path :=
  spelled ▸ printable_joinPath fun name member => (good name member).printable

theorem requestPath_child {name : String} {entry : DavEntry} (goodName : GoodName name)
    (child : ChildEntry path name entry) :
    requestPath (Xml.hrefText entry) = .ok (joinPath (segments path ++ [name])) := by
  have hrefIs : ∃ info : ChildInfo, info.name = name ∧ entry.href = (entryFromInfo path info false).href := by
    rcases child with ⟨info, named, rfl⟩ | ⟨item, named, rfl⟩
    · exact ⟨info, named, rfl⟩
    · exact ⟨⟨name, false, 0, 0, "", ""⟩, rfl, href_toEntry path item _ named.symm⟩
  obtain ⟨info, named, same⟩ := hrefIs
  have clean : CleanName info.name := named ▸ goodName.clean
  have names : segments entry.href = segments path ++ [name] := by
    rw [same, segments_href_child clean, named]
  have printable : Printable entry.href :=
    same ▸ printable_href (printable_of_canonical spelled good) (named ▸ goodName.printable)
  rw [requestPath_hrefText printable, names]
  rw [names]
  intro n member
  rcases List.mem_append.mp member with inFront | isLast
  · exact ⟨(good n inFront).not_dot, (good n inFront).not_dots⟩
  · rw [List.mem_singleton.mp isLast]
    exact ⟨goodName.not_dot, goodName.not_dots⟩

theorem requestPath_self {entry : DavEntry} (printable : Printable entry.href)
    (names : segments entry.href = segments path) : requestPath (Xml.hrefText entry) = .ok path := by
  rw [requestPath_hrefText printable, names, ← spelled]
  rw [names]
  exact fun n member => ⟨(good n member).not_dot, (good n member).not_dots⟩

theorem requestPath_live {item : Graph.GraphItem} (named : path ≠ "/" → item.name = lastSegment path) :
    requestPath (Xml.hrefText (selfEntry path item)) = .ok path := by
  refine requestPath_self spelled good ?_ ?_
  -- twice, for the root and for any other path: the address is printable, and it spells the names of the path
  all_goals
    unfold selfEntry
    dsimp only
    split
  · exact printable_slash
  · rename_i only
    have other : path ≠ "/" := by
      rintro rfl
      exact only (by decide)
    have parent : Printable (parentOf path) := by
      refine printable_of_subset (printable_of_canonical spelled good) fun c member => ?_
      unfold parentOf at member
      split at member
      · rw [String.toList_ofList] at member
        exact List.mem_of_mem_take member
      · exact absurd member List.not_mem_nil
    have filled : segments path ≠ [] := fun empty => other (by rw [spelled, empty]; rfl)
    have last : GoodName item.name := by
      rw [named other, lastSegment_eq, List.getLastD_eq_getLast?, List.getLast?_eq_some_getLast filled]
      exact good _ (List.getLast_mem filled)
    rw [href_toEntry (parentOf path) item ⟨item.name, false, 0, 0, "", ""⟩ rfl]
    exact printable_href parent last.printable
  · rename_i only
    rw [segments_of_onlySlashes only]
    have root : segments "/" = [] := by decide
    exact root
  · rename_i only
    have other : path ≠ "/" := by
      rintro rfl
      exact only (by decide)
    have filled : segments path ≠ [] := fun empty => other (by rw [spelled, empty]; rfl)
    have lastName : item.name = (segments path).getLast filled := by
      rw [named other, lastSegment_eq, List.getLastD_eq_getLast?, List.getLast?_eq_some_getLast filled]
      rfl
    have clean : CleanName item.name := lastName ▸ (good _ (List.getLast_mem filled)).clean
    rw [href_toEntry (parentOf path) item ⟨item.name, false, 0, 0, "", ""⟩ rfl]
    have names := @segments_href_child (parentOf path) ⟨item.name, false, 0, 0, "", ""⟩ clean
    rw [names, segments_parentOf]
    dsimp only
    rw [lastName, List.dropLast_concat_getLast]

end Canonical

/-- For every path that `sanitize_path` lets through, the address of every entry of its listing
leads back to what the entry is about. -/
theorem hrefs_lead_back {raw path : String} (passed : sanitizePath raw = .ok path) : HrefsLeadBack path := by
  obtain ⟨spelled, good⟩ := canonical_of_sanitizePath passed
  have clean : ∀ name ∈ segments path, CleanName name := fun name member => (good name member).clean
  refine ⟨?_, ?_, fun item named => requestPath_live spelled good named, ?_⟩
  · intro name entry goodName child
    rw [requestPath_child spelled good goodName child, ← childPath_joinPath name clean, ← spelled]
  · intro info
    have href : (entryFromInfo path info true).href = path := by
      rw [href_self, normalizePath, ← spelled]
    refine requestPath_self spelled good ?_ ?_
    · rw [href]
      exact printable_of_canonical spelled good
    · rw [href]
  · intro name name' entry entry' goodName goodName' child child' same
    have first := requestPath_child spelled good goodName child
    rw [same, requestPath_child spelled good goodName' child'] at first
    have clean' : ∀ last, GoodName last → ∀ n ∈ segments path ++ [last], CleanName n := by
      intro last goodLast n member
      rcases List.mem_append.mp member with inFront | isLast
      · exact clean n inFront
      · rw [List.mem_singleton.mp isLast]
        exact goodLast.clean
    have names := joinPath_injective (clean' name' goodName') (clean' name goodName) (Except.ok.inj first)
    exact (List.singleton_injective (List.append_cancel_left names)).symm

theorem hrefs_lead_back_encoded : HrefsLeadBack "/100% safe/caf\u00e9" :=
  @hrefs_lead_back "/100%25%20safe//caf%C3%A9/" _ (by decide)

example : Xml.hrefText (entryFromInfo "/100% safe" ⟨"a?b#c", true, 0, 0, "", ""⟩ false) =
    "/100%25%20safe/a%3Fb%23c/" := by decide

end Dav

end OneDriveDavfs
