import OneDriveDavfs.Dav.Propfind
import OneDriveDavfs.Dav.Verbs
import OneDriveDavfs.Graph.Addresses

/-! What a `MKCOL` and a `MOVE` tell Graph about their target.

Graph is told where the target stands and what it is called, one of them or both
in a body. The bodies are text, and are read back as JSON here.
-/

set_option autoImplicit false

namespace OneDriveDavfs

open Library Library.Separated Library.Wire Library.Json OneDriveDavfs.Graph Dav

namespace Verbs

def folderValue (name : String) : Value :=
  .object [("@microsoft.graph.conflictBehavior", .text "fail"), ("folder", .object []), ("name", .text name)]

def moveValue (name reference : String) : Value :=
  .object [("name", .text name), ("parentReference", .object [("path", .text reference)])]

/-! ## The bodies as JSON -/

theorem parse_folderBody (name : String) : parse (folderBody name) = some (folderValue name) := by
  have written : folderBody name = compact (folderValue name) := by
    apply String.toList_injective
    unfold folderBody folderValue compact
    simp only [write, writeMember, writeMembers, dense_gap, dense_colon, List.nil_append, String.toList_append,
      String.toList_ofList]
    have opening : "\x7b\"@microsoft.graph.conflictBehavior\":\"fail\",\"folder\":\x7b\x7d,\"name\":".toList =
        '{' :: (writeString "@microsoft.graph.conflictBehavior" ++ ':' :: writeString "fail" ++
          ',' :: (writeString "folder" ++ [':', '{', '}'] ++
            ',' :: (writeString "name" ++ [':']))) := by decide +kernel
    have closing : "\x7d".toList = ['}'] := rfl
    rw [opening, closing]
    simp only [List.append_assoc, List.cons_append, List.nil_append]
  rw [written, parse_compact]

theorem parse_moveBody {path front name : String} (driveBase : String) (slash : '/' ∉ name.toList)
    (whole : path.toList = front.toList ++ '/' :: name.toList) :
    parse (moveBody driveBase path) = some (moveValue name (parentReferencePath driveBase front)) := by
  have written : moveBody driveBase path = compact (moveValue name (parentReferencePath driveBase front)) := by
    have behind : (front.toList ++ '/' :: name.toList).drop (front.toList.length + 1) = name.toList := by simp
    unfold moveBody
    dsimp only
    rw [whole, rfind_append_clean _ slash, ← String.toList_inj, compact, moveValue]
    dsimp only
    rw [List.take_left, behind, String.ofList_toList, String.ofList_toList]
    simp only [write, writeMember, writeMembers, dense_gap, dense_colon, List.nil_append, String.toList_append,
      String.toList_ofList]
    have opening : "\x7b\"name\":".toList = '{' :: (writeString "name" ++ [':']) := by decide
    have between : ",\"parentReference\":\x7b\"path\":".toList =
        ',' :: (writeString "parentReference" ++ ':' :: '{' :: (writeString "path" ++ [':'])) := by
      decide
    have closing : "\x7d\x7d".toList = ['}', '}'] := rfl
    rw [opening, between, closing]
    simp only [List.append_assoc, List.cons_append, List.nil_append]
  rw [written, parse_compact]

/-! ## The two parts of a path -/

section Target
variable {front : List String} {name : String}

theorem chars_joinPath :
    (joinPath (front ++ [name])).toList = joined '/' (front.map String.toList) ++ '/' :: name.toList := by
  rw [toList_joinPath (by simp)]
  simp

theorem lastName_joinPath (clean : ∀ n ∈ front ++ [name], CleanName n) :
    lastName (joinPath (front ++ [name])) = name := by
  have trimmed : trimEndSlashes (joinPath (front ++ [name])) =
      joined '/' (front.map String.toList) ++ '/' :: name.toList := by
    rw [trimEndSlashes_joinPath clean (by simp)]
    simp
  rw [lastName, trimmed, rfind_append_clean _ (clean name (by simp)).2]
  simp

end Target

section Front
variable {front : List String} (good : ∀ n ∈ front, GoodName n) (filled : front ≠ [])

include filled in
theorem ofList_joined : String.ofList (joined '/' (front.map String.toList)) = joinPath front := by
  rw [← toList_joinPath filled, String.ofList_toList]

include good filled in
theorem rdropWhile_names :
    ("/".intercalate front).toList.rdropWhile (· == '/') = ("/".intercalate front).toList := by
  have clean : ∀ n ∈ front, CleanName n := fun n member => (good n member).clean
  have kept := trimEndSlashes_joinPath clean filled
  have slash : "/".toList = ['/'] := rfl
  rw [trimEndSlashes, ← toList_joinPath filled, joinPath_eq_intercalate filled, String.toList_append, slash,
    List.singleton_append, List.rdropWhile_eq_self_iff] at kept
  rw [List.rdropWhile_eq_self_iff]
  intro some
  have last := kept (List.cons_ne_nil _ _)
  rwa [List.getLast_cons some] at last

include good filled in
theorem parentReferencePath_joinPath (driveBase : String) :
    parentReferencePath driveBase (joinPath front) =
      driveRootSegment driveBase ++ "/root:/" ++ "/".intercalate (front.map Xml.pctEncode) := by
  have address := itemPathSegment_joinPath good filled driveBase
  have named : ("/".intercalate front).toList.isEmpty = false := by
    by_contra empty
    unfold itemPathSegment at address
    dsimp only at address
    rw [dropWhile_joinPath good filled, if_pos (by simpa using empty), String.append_assoc, String.append_assoc,
      String.append_right_inj] at address
    exact absurd (congrArg (fun text => text.toList.drop 5) address) (by simp)
  unfold itemPathSegment at address
  unfold parentReferencePath
  dsimp only at address ⊢
  rw [dropWhile_joinPath good filled, named, if_neg Bool.false_ne_true, String.append_left_inj] at address
  rw [dropWhile_joinPath good filled, rdropWhile_names good filled, named, if_neg Bool.false_ne_true, address]

include filled in
theorem intercalate_concat (last : String) :
    "/".intercalate (front ++ [last]) = "/".intercalate front ++ "/" ++ last := by
  have whole : joinPath (front ++ [last]) = joinPath front ++ ("/" ++ last) := by
    apply String.toList_injective
    rw [chars_joinPath, String.toList_append, toList_joinPath filled]
    simp
  rw [joinPath_eq_intercalate (by simp), joinPath_eq_intercalate filled, String.append_assoc, String.append_right_inj]
    at whole
  rw [whole, String.append_assoc]

end Front

theorem parentReferencePath_empty (driveBase : String) :
    parentReferencePath driveBase "" = itemPathSegment driveBase "/" ++ ":" := by
  rw [itemPathSegment_root, String.append_assoc]
  rfl

/-- The parent and the name that Graph is given are those of the path, and lead to its address again. -/
theorem bodies_name_target {raw path : String} (driveBase : String) (passed : sanitizePath raw = .ok path)
    (below : path ≠ "/") :
    ∃ front name reference, path = joinPath (front ++ [name]) ∧ GoodName name ∧
      itemPathSegment driveBase (parentOf path) = itemPathSegment driveBase (joinPath front) ∧
      parse (folderBody (lastName path)) = some (folderValue name) ∧
      parse (moveBody driveBase path) = some (moveValue name reference) ∧
      (front ≠ [] → reference ++ ":" = itemPathSegment driveBase (joinPath front)) ∧
      (front = [] → reference = itemPathSegment driveBase "/" ++ ":") ∧
      itemPathSegment driveBase path = reference ++ "/" ++ Xml.pctEncode name ++ ":" := by
  obtain ⟨canonical, good⟩ := canonical_of_sanitizePath passed
  have nonempty : segments path ≠ [] := by
    intro empty
    rw [empty, joinPath_nil] at canonical
    exact below canonical
  obtain ⟨front, name, parts⟩ := List.eq_nil_or_concat' (segments path) |>.resolve_left nonempty
  rw [parts] at canonical good
  subst canonical
  have clean : ∀ n ∈ front ++ [name], CleanName n := fun n member => (good n member).clean
  have fine : ∀ n ∈ front, GoodName n := fun n member => good n (List.mem_append_left _ member)
  have slash : '/' ∉ name.toList := (clean name (by simp)).2
  have address := itemPathSegment_joinPath good (by simp) driveBase
  have moved := @parse_moveBody (joinPath (front ++ [name])) (String.ofList (joined '/' (front.map String.toList))) name
    driveBase slash
    (by rw [chars_joinPath, String.toList_ofList])
  refine ⟨front, name, _, rfl, good name (by simp), ?_, ?_, moved, ?_⟩
  · rw [parentOf_joinPath clean]
    by_cases filled : front = []
    · subst filled
      rfl
    · rw [ofList_joined filled]
  · rw [lastName_joinPath clean, parse_folderBody]
  · by_cases filled : front = []
    · subst filled
      have root := parentReferencePath_empty driveBase
      refine ⟨fun some => absurd rfl some, fun _ => root, ?_⟩
      rw [address, List.map_nil, joined_nil, String.ofList_nil, root, itemPathSegment_root]
      simp [String.append_assoc]
    · rw [ofList_joined filled, parentReferencePath_joinPath fine filled]
      refine ⟨fun _ => (itemPathSegment_joinPath fine filled driveBase).symm, fun empty => absurd empty filled, ?_⟩
      rw [address, List.map_append, List.map_singleton, intercalate_concat (by simpa using filled)]
      simp only [String.append_assoc]

/-- A colon in the name, and a folder in front of it. -/
theorem bodies_name_target_colon :
    ∃ front name reference, "/a/b:c" = joinPath (front ++ [name]) ∧ GoodName name ∧
      itemPathSegment "me/drive" (parentOf "/a/b:c") = itemPathSegment "me/drive" (joinPath front) ∧
      parse (folderBody (lastName "/a/b:c")) = some (folderValue name) ∧
      parse (moveBody "me/drive" "/a/b:c") = some (moveValue name reference) ∧
      (front ≠ [] → reference ++ ":" = itemPathSegment "me/drive" (joinPath front)) ∧
      (front = [] → reference = itemPathSegment "me/drive" "/" ++ ":") ∧
      itemPathSegment "me/drive" "/a/b:c" = reference ++ "/" ++ Xml.pctEncode name ++ ":" := by
  have read : sanitizePath "/a//b%3Ac" = .ok "/a/b:c" := by decide
  exact bodies_name_target "me/drive" read (by decide)

end Verbs

end OneDriveDavfs
