import Mathlib.Data.List.Flatten
import OneDriveDavfs.Dav.RequestPath

/-! The directory that `GET /_tree` is about: `query_param` and `tree` in `src/api.rs`.

The value of the pair is decoded when it is read, and decoded again as a
request path. The second decoding leaves a path alone only where it has no
percent sign.
-/

set_option autoImplicit false

namespace OneDriveDavfs

open Library Library.Separated Library.Wire

namespace Api

/-- The loop over the pairs: what has no `=` is skipped, and so is an empty pair. -/
def findParam (key : String) : List (List Char) → Option String
  | [] => none
  | pair :: rest =>
    if pair.isEmpty then findParam key rest
    else
      match splitOnce ['='] pair with
      | none => findParam key rest
      | some (k, v) =>
        if k = key.toList then some ((Xml.pctDecode (String.ofList v)).getD (String.ofList v))
        else findParam key rest

def queryParam (query : Option String) (key : String) : Option String :=
  query.bind fun q => findParam key (q.toList.splitOn '&')

def treePath (query : Option String) : Except String String :=
  sanitizePath ((queryParam query "path").getD "/")

/-! ## The pair of the path -/

def pathPair (value : String) : List Char := "path=".toList ++ value.toList

theorem findParam_pathPair (value : String) (rest : List (List Char)) :
    findParam "path" (pathPair value :: rest) = some ((Xml.pctDecode value).getD value) := by
  have absent : '=' ∉ "path".toList := by decide
  have key : splitOnce ['='] (pathPair value) = some ("path".toList, value.toList) :=
    splitOnce_separator absent value.toList
  rw [findParam, if_neg (by simp [pathPair]), key]
  dsimp only
  rw [if_pos rfl, String.ofList_toList]

theorem findParam_skip {before after : List (List Char)} (other : ∀ pair ∈ before, ¬ "path=".toList <+: pair) :
    findParam "path" (before ++ after) = findParam "path" after := by
  induction before with
  | nil => rfl
  | cons pair before ih =>
    have tail := ih fun p member => other p (List.mem_cons_of_mem _ member)
    rw [List.cons_append, findParam]
    split
    · exact tail
    · split
      · exact tail
      · rename_i k v cut
        have whole := splitOnce_eq_some cut
        have different : k ≠ "path".toList := by
          rintro rfl
          exact other pair List.mem_cons_self (whole ▸ List.prefix_append _ v)
        rw [if_neg different, tail]

theorem queryParam_path {query : String} {before after : List (List Char)} {value : String}
    (pairs : query.toList.splitOn '&' = before ++ pathPair value :: after)
    (other : ∀ pair ∈ before, ¬ "path=".toList <+: pair) :
    queryParam (some query) "path" = some ((Xml.pctDecode value).getD value) := by
  rw [queryParam, Option.bind_some, pairs, findParam_skip other, findParam_pathPair]

/-! ## The second decoding -/

theorem pctDecode_eq_self {path : String} (absent : '%' ∉ path.toList) : Xml.pctDecode path = some path := by
  have plain : Percent.percent ∉ utf8 path := fun member => absent ((mem_utf8_iff (by decide) path).mp member)
  rw [Xml.pctDecode, Percent.decode_eq_self plain, Option.bind_some, fromUtf8_utf8]

theorem length_of_pctDecode {path decoded : String} (escape : '%' ∈ path.toList)
    (read : Xml.pctDecode path = some decoded) : (utf8 decoded).length + 2 ≤ (utf8 path).length := by
  obtain ⟨out, bytes, text⟩ := Option.bind_eq_some_iff.mp read
  have percent : Percent.percent ∈ utf8 path := (mem_utf8_iff (by decide) path).mpr escape
  rw [utf8_of_fromUtf8 text]
  exact (Percent.length_of_decode bytes).2 percent

theorem length_of_sanitizePath {raw path : String} (passed : sanitizePath raw = .ok path) :
    ∃ decoded, Xml.pctDecode raw = some decoded ∧ (utf8 path).length ≤ (utf8 decoded).length + 1 := by
  unfold sanitizePath at passed
  split at passed
  · cases passed
  · rename_i decoded read
    refine ⟨decoded, read, ?_⟩
    split at passed
    · cases passed
    · cases kept : keepSegments ((decoded.toList.splitOn '/').map String.ofList) with
      | error e => rw [kept] at passed; cases passed
      | ok segs =>
        rw [kept] at passed
        cases passed
        by_cases empty : segs = []
        · subst empty
          have slash : (utf8 (joinPath [])).length = 1 := by decide
          omega
        · -- the segments that are kept are some of those of the decoded path, so joining them gives no more
          have taken : (joined '/' (segs.map String.toList)).Sublist (joined '/' (decoded.toList.splitOn '/')) := by
            have pieces := (keepSegments_sublist kept).map String.toList
            have same : String.toList ∘ String.ofList = id := by
              funext chars
              exact String.toList_ofList
            rw [List.map_map, same, List.map_id] at pieces
            exact pieces.flatMap _
          rw [joined_eq_intercalate _ _ (List.splitOn_ne_nil '/' _), List.intercalate_splitOn, ← toList_joinPath empty]
            at taken
          have bytes := (taken.flatMap String.utf8EncodeChar).length_le
          have slash : (String.utf8EncodeChar '/').length = 1 := by decide
          rw [← utf8_eq_flatMap, List.flatMap_cons, List.length_append, slash, ← utf8_eq_flatMap] at bytes
          omega

theorem sanitizePath_canonical {raw path : String} (passed : sanitizePath raw = .ok path) :
    sanitizePath path = .ok path ↔ '%' ∉ path.toList := by
  obtain ⟨canonical, good⟩ := canonical_of_sanitizePath passed
  constructor
  · intro again escape
    -- every escape costs two bytes, and normalising adds at most a slash
    obtain ⟨decoded, read, most⟩ := length_of_sanitizePath again
    have shorter := length_of_pctDecode escape read
    omega
  · intro absent
    have printable : Printable path := canonical ▸ printable_joinPath fun name member => (good name member).printable
    have fine : ∀ name ∈ segments path, name ≠ "." ∧ name ≠ ".." := fun name member =>
      ⟨(good name member).not_dot, (good name member).not_dots⟩
    rw [sanitizePath_of_pctDecode (pctDecode_eq_self absent) printable fine, ← canonical]

/-- `GET /_tree` looks up the path it was asked for exactly when no name of it has a percent sign. -/
theorem treePath_iff {raw path : String} (passed : sanitizePath raw = .ok path) {query : String}
    {before after : List (List Char)}
    (pairs : query.toList.splitOn '&' = before ++ pathPair (Xml.pctEncode path) :: after)
    (other : ∀ pair ∈ before, ¬ "path=".toList <+: pair) :
    treePath (some query) = .ok path ↔ '%' ∉ path.toList := by
  rw [treePath, queryParam_path pairs other, pctDecode_pctEncode]
  exact sanitizePath_canonical passed

theorem treePath_iff_spaces :
    treePath (some "depth=1&path=/R%26D/a%20b") = .ok "/R&D/a b" ↔ '%' ∉ "/R&D/a b".toList := by
  have passed : sanitizePath "/R%26D//a%20b/" = .ok "/R&D/a b" := by decide +kernel
  have pairs : "depth=1&path=/R%26D/a%20b".toList.splitOn '&' =
      ["depth=1".toList] ++ pathPair (Xml.pctEncode "/R&D/a b") :: [] := by decide +kernel
  have other : ∀ pair ∈ ["depth=1".toList], ¬ "path=".toList <+: pair := by decide
  exact treePath_iff passed pairs other

/-- A folder can be named `a%2Fb`; the folder `b` in `a` is looked up. -/
theorem other_directory_answered :
    sanitizePath "/a%252Fb" = .ok "/a%2Fb" ∧
    "path=/a%252Fb".toList = pathPair (Xml.pctEncode "/a%2Fb") ∧
    treePath (some "path=/a%252Fb") = .ok "/a/b" := by
  decide +kernel

end Api

end OneDriveDavfs
