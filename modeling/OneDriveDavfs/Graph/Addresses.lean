import OneDriveDavfs.Dav.RequestPath
import OneDriveDavfs.Graph.Requests

/-! The addresses of items: `item_path_segment` in `src/graph.rs`.

A path stands between `/root:/` and a colon. Its names are encoded one by one,
so nothing in a name can end the path or leave the drive, and from the address
the path can be read back.
-/

set_option autoImplicit false
set_option maxRecDepth 2000

namespace OneDriveDavfs

open Library Library.Separated Library.Wire

namespace Graph

/-! ## Encoded text -/

def addressChar (c : Char) : Bool := c.toNat < 128 && Xml.plain (UInt8.ofNat c.toNat)

def hexChar (c : Char) : Bool := ('0' ≤ c && c ≤ '9') || ('A' ≤ c && c ≤ 'F')

/-- Nothing but the characters above and escapes. -/
inductive Escaped : List Char → Prop where
  | nil : Escaped []
  | plain {c : Char} {rest : List Char} : addressChar c = true → Escaped rest → Escaped (c :: rest)
  | escape {high low : Char} {rest : List Char} : hexChar high = true → hexChar low = true → Escaped rest →
      Escaped ('%' :: high :: low :: rest)

theorem Escaped.append {front rest : List Char} (first : Escaped front) (second : Escaped rest) :
    Escaped (front ++ rest) := by
  induction first with
  | nil => exact second
  | plain kept _ ih => exact .plain kept ih
  | escape high low _ ih => exact .escape high low ih

theorem addressChar_plain : ∀ byte : UInt8, Xml.plain byte = true → addressChar (Char.ofNat byte.toNat) = true :=
  forall_byte (by decide)

theorem hexChar_hexDigit : ∀ n : UInt8, n < 16 → hexChar (Char.ofNat (Percent.hexDigit n).toNat) = true :=
  forall_byte (by decide)

theorem toList_pctEncode (s : String) :
    (Xml.pctEncode s).toList = (Percent.encode Xml.plain (utf8 s)).map fun byte => Char.ofNat byte.toNat := by
  rw [Xml.pctEncode, latin, String.toList_ofList]

theorem escaped_pctEncode (s : String) : Escaped (Xml.pctEncode s).toList := by
  rw [toList_pctEncode]
  induction utf8 s with
  | nil => exact .nil
  | cons byte rest ih =>
    rw [Percent.encode_cons, List.map_append]
    refine Escaped.append ?_ ih
    unfold Percent.encodeByte
    split
    · rename_i kept
      exact .plain (addressChar_plain byte kept) .nil
    · obtain ⟨high, low, _⟩ := Percent.digits_div_mod byte
      exact .escape (hexChar_hexDigit _ high) (hexChar_hexDigit _ low) .nil

theorem pctEncode_append (a b : String) : Xml.pctEncode (a ++ b) = Xml.pctEncode a ++ Xml.pctEncode b := by
  rw [Xml.pctEncode, utf8_append, Percent.encode_append, latin_append]
  rfl

theorem pctEncode_intercalate (segs : List String) :
    "/".intercalate (segs.map Xml.pctEncode) = Xml.pctEncode ("/".intercalate segs) := by
  induction segs with
  | nil => decide
  | cons first rest ih =>
    cases rest with
    | nil => simp
    | cons next rest =>
      rw [List.map_cons, List.map_cons, String.intercalate_cons_cons, String.intercalate_cons_cons, ← List.map_cons, ih,
        pctEncode_append, pctEncode_slash]

theorem slash_of_mem_pctEncode {s : String} (member : '/' ∈ (Xml.pctEncode s).toList) : '/' ∈ s.toList := by
  have code : ∀ byte : UInt8, Char.ofNat byte.toNat = '/' → byte = 0x2F := forall_byte (by decide)
  have digits : ∀ n : UInt8, n < 16 → Percent.hexDigit n ≠ 0x2F := forall_byte (by decide)
  rw [toList_pctEncode] at member
  obtain ⟨byte, written, char⟩ := List.mem_map.mp member
  have slash := code byte char
  subst slash
  rcases Percent.mem_encode written with ⟨_, given⟩ | percent | ⟨n, small, digit⟩
  · exact (mem_utf8_iff (by decide) s).mp given
  · exact absurd percent (by decide)
  · exact absurd digit.symm (digits n small)

/-! ## The address of a path -/

/-- What may stand between `/root:/` and the colon. -/
structure Enclosed (encoded : String) : Prop where
  escaped : Escaped encoded.toList
  named : ∀ piece ∈ encoded.toList.splitOn '/',
    piece ≠ "".toList ∧ piece ≠ ".".toList ∧ piece ≠ "..".toList

section Names
variable {segs : List String} (good : ∀ name ∈ segs, GoodName name) (nonempty : segs ≠ [])

include nonempty in
theorem joinPath_eq_intercalate : joinPath segs = "/" ++ "/".intercalate segs := by
  rw [joinPath, if_neg (by simpa using nonempty)]

include good nonempty in
theorem splitOn_intercalate_names :
    ("/".intercalate segs).toList.splitOn '/' = segs.map String.toList := by
  rw [String.toList_intercalate]
  refine List.splitOn_intercalate _ ?_ (by simpa using nonempty)
  intro piece member
  obtain ⟨name, found, rfl⟩ := List.mem_map.mp member
  exact (good name found).clean.2

include good nonempty in
theorem dropWhile_joinPath :
    (joinPath segs).toList.dropWhile (· == '/') = ("/".intercalate segs).toList := by
  rw [joinPath_eq_intercalate nonempty, String.toList_append]
  have slash : "/".toList = ['/'] := rfl
  rw [slash, List.singleton_append, List.dropWhile_cons_of_pos (by decide)]
  obtain ⟨first, rest, rfl⟩ := List.exists_cons_of_ne_nil nonempty
  have clean : CleanName first := (good first List.mem_cons_self).clean
  obtain ⟨c, chars, front⟩ := List.exists_cons_of_ne_nil clean.1
  have other : (c == '/') = false := by
    rw [beq_eq_false_iff_ne]
    rintro rfl
    exact clean.2 (front ▸ List.mem_cons_self)
  have begins : ∃ tail, ("/".intercalate (first :: rest)).toList = c :: tail := by
    cases rest with
    | nil => exact ⟨chars, by simp [front]⟩
    | cons next rest =>
      rw [String.intercalate_cons_cons, String.toList_append, String.toList_append, front]
      exact ⟨_, rfl⟩
  obtain ⟨tail, whole⟩ := begins
  rw [whole, List.dropWhile_cons_of_neg (by rw [other]; exact Bool.false_ne_true)]

include good nonempty in
theorem itemPathSegment_joinPath (driveBase : String) :
    itemPathSegment driveBase (joinPath segs) =
      driveRootSegment driveBase ++ "/root:/" ++ "/".intercalate (segs.map Xml.pctEncode) ++ ":" := by
  have pieces := splitOn_intercalate_names good nonempty
  -- the names are not empty, so the path without its slash is not
  have filled : ("/".intercalate segs).toList.isEmpty = false := by
    have drop := dropWhile_joinPath good nonempty
    cases empty : ("/".intercalate segs).toList with
    | nil =>
      rw [empty, List.splitOn_nil] at pieces
      obtain ⟨first, rest, rfl⟩ := List.exists_cons_of_ne_nil nonempty
      have none : first.toList = [] := by
        rw [List.map_cons, List.cons.injEq] at pieces
        exact pieces.1.symm
      exact absurd none (good first List.mem_cons_self).clean.1
    | cons => rfl
  unfold itemPathSegment
  dsimp only
  rw [dropWhile_joinPath good nonempty, if_neg (by rw [filled]; exact Bool.false_ne_true), encodedSegments, pieces,
    List.map_map]
  congr 4
  funext name
  rw [Function.comp_apply, String.ofList_toList]

include good nonempty in
theorem enclosed_names : Enclosed ("/".intercalate (segs.map Xml.pctEncode)) := by
  refine ⟨pctEncode_intercalate segs ▸ escaped_pctEncode _, ?_⟩
  have split : ("/".intercalate (segs.map Xml.pctEncode)).toList.splitOn '/' =
      segs.map fun name => (Xml.pctEncode name).toList := by
    rw [String.toList_intercalate, List.map_map]
    refine List.splitOn_intercalate _ ?_ (by simpa using nonempty)
    intro piece member
    obtain ⟨name, found, rfl⟩ := List.mem_map.mp member
    exact fun slash => (good name found).clean.2 (slash_of_mem_pctEncode slash)
  rw [split]
  intro piece member
  obtain ⟨name, found, rfl⟩ := List.mem_map.mp member
  -- what encodes to one of the three is the one itself
  have only : ∀ text, Xml.pctEncode text = text → (Xml.pctEncode name).toList = text.toList → name = text := by
    intro text same equal
    exact pctEncode_injective ((String.toList_inj.mp equal).trans same.symm)
  exact ⟨fun empty => (good name found).clean.ne_empty (only "" (by decide) empty),
    fun dot => (good name found).not_dot (only "." (by decide) dot),
    fun dots => (good name found).not_dots (only ".." (by decide) dots)⟩

end Names

theorem itemPathSegment_root (driveBase : String) :
    itemPathSegment driveBase "/" = driveRootSegment driveBase ++ "/root" := rfl

theorem itemPathSegment_injective {driveBase : String} {segs others : List String}
    (good : ∀ name ∈ segs, GoodName name) (fine : ∀ name ∈ others, GoodName name)
    (same : itemPathSegment driveBase (joinPath segs) = itemPathSegment driveBase (joinPath others)) :
    joinPath segs = joinPath others := by
  -- the address of the root ends where the others have a colon
  have apart : ∀ names : List String, (∀ name ∈ names, GoodName name) → names ≠ [] →
      itemPathSegment driveBase (joinPath names) ≠ itemPathSegment driveBase "/" := by
    intro names names_good filled equal
    rw [itemPathSegment_joinPath names_good filled, itemPathSegment_root, String.append_assoc, String.append_assoc,
      String.append_right_inj] at equal
    have ends := congrArg (fun text => text.toList.getLast?) equal
    have colon : ":".toList = [':'] := rfl
    rw [← String.append_assoc, String.toList_append, colon, List.getLast?_concat] at ends
    exact absurd ends (by decide)
  by_cases empty : segs = []
  · by_cases none : others = []
    · rw [empty, none]
    · rw [empty, joinPath_nil] at same
      exact absurd same.symm (apart others fine none)
  · by_cases none : others = []
    · rw [none, joinPath_nil] at same
      exact absurd same (apart segs good empty)
    · rw [itemPathSegment_joinPath good empty, itemPathSegment_joinPath fine none, String.append_left_inj,
        String.append_right_inj, pctEncode_intercalate, pctEncode_intercalate] at same
      rw [joinPath_eq_intercalate empty, joinPath_eq_intercalate none, pctEncode_injective same]

/-- The address of a path that passed encloses its names, encoded one by one, and belongs to no other path. -/
theorem itemPathSegment_safe {raw path : String} (driveBase : String) (passed : sanitizePath raw = .ok path) :
    (path = "/" → itemPathSegment driveBase path = driveRootSegment driveBase ++ "/root") ∧
    (path ≠ "/" → ∃ encoded rest,
      itemPathSegment driveBase path = driveRootSegment driveBase ++ "/root:/" ++ encoded ++ ":" ∧
      encoded = "/".intercalate ((segments path).map Xml.pctEncode) ∧ Enclosed encoded ∧
      Xml.pctDecode encoded = some rest ∧ path = "/" ++ rest) ∧
    ∀ target other, sanitizePath target = .ok other →
      itemPathSegment driveBase other = itemPathSegment driveBase path → other = path := by
  obtain ⟨canonical, good⟩ := canonical_of_sanitizePath passed
  refine ⟨?_, ?_, ?_⟩
  · rintro rfl
    exact itemPathSegment_root driveBase
  · intro other
    have nonempty : segments path ≠ [] := by
      intro empty
      rw [empty, joinPath_nil] at canonical
      exact other canonical
    refine ⟨_, "/".intercalate (segments path), ?_, rfl, enclosed_names good nonempty, ?_, ?_⟩
    · have address := itemPathSegment_joinPath good nonempty driveBase
      rwa [← canonical] at address
    · rw [pctEncode_intercalate, pctDecode_pctEncode]
    · rw [← joinPath_eq_intercalate nonempty]
      exact canonical
  · intro target other reached same
    obtain ⟨shape, fine⟩ := canonical_of_sanitizePath reached
    rw [shape, canonical] at same ⊢
    exact itemPathSegment_injective fine good same

/-- A colon in a name does not end the path, and the name is not taken for the part before it. -/
theorem itemPathSegment_safe_colon :
    (∃ encoded rest,
      itemPathSegment "me/drive" "/a:b" = driveRootSegment "me/drive" ++ "/root:/" ++ encoded ++ ":" ∧
      encoded = "/".intercalate ((segments "/a:b").map Xml.pctEncode) ∧ Enclosed encoded ∧
      Xml.pctDecode encoded = some rest ∧ "/a:b" = "/" ++ rest) ∧
    itemPathSegment "me/drive" "/a" ≠ itemPathSegment "me/drive" "/a:b" := by
  have read : sanitizePath "/./a%3Ab" = .ok "/a:b" := by decide
  have part : sanitizePath "/a" = .ok "/a" := by decide
  obtain ⟨_, inside, apart⟩ := itemPathSegment_safe "me/drive" read
  exact ⟨inside (by decide), fun same => absurd (apart "/a" "/a" part same) (by decide)⟩

end Graph

end OneDriveDavfs
